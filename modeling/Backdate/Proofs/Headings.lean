import Backdate.Command.Run
import Backdate.Proofs.Totals
import Mathlib.Data.List.Destutter

/-!
# The headings of a session

A heading is shown before the first entry of a section and not again until an
entry has another one; an entry without a heading belongs to the section that it
stands in. So the headings that a session shows are those of its entries without
repetitions in a row, and each stands right before the report of the entry that
opens its section. This is what a command prints (`sections_set_out`).

* `SetOut`: what is shown of entries, against their headings and their reports;
* `SetOut.enter`, `SetOut.report`: an entry adds its heading, if it opens a
  section, and then its report;
* `setOut_showFrom`: by induction, whatever entries went before. A fault comes
  between the two steps;
* `transcript`: the text of entries with their reports. It is printed of a session
  that ends well (`showAll_showFrom`), and by a command under its head
  (`dryRun_prints`, `gitRun_prints`).
-/

namespace Backdate

/-! ## Repetitions in a row -/

section Destutter

variable {α : Type} [DecidableEq α]

theorem destutter'_snoc (a : α) (l : List α) (x : α) :
    (l ++ [x]).destutter' (· ≠ ·) a =
      l.destutter' (· ≠ ·) a ++ if (a :: l).getLast? = some x then [] else [x] := by
  induction l generalizing a with
  | nil => by_cases h : a = x <;> simp [h]
  | cons b l ih =>
    rw [List.cons_append, List.getLast?_cons_cons]
    by_cases h : a = b
    · subst h
      rw [List.destutter'_cons_neg _ (not_not.2 rfl), List.destutter'_cons_neg _ (not_not.2 rfl), ih]
    · rw [List.destutter'_cons_pos _ h, List.destutter'_cons_pos _ h, ih, List.cons_append]

/-- One more item is kept, unless the last one was the same. -/
theorem destutter_snoc (l : List α) (x : α) :
    (l ++ [x]).destutter (· ≠ ·) =
      l.destutter (· ≠ ·) ++ if l.getLast? = some x then [] else [x] := by
  cases l with
  | nil => simp
  | cons a l => exact destutter'_snoc a l x

end Destutter

/-! ## Sections -/

/-- The text of a heading that is shown. -/
def Shown.heading? : Shown → Option String
  | .heading text => some text
  | .report _ => none

namespace Entry

/-- The headings of those entries that have one. -/
def headings (es : List Entry) : List String := es.filterMap (·.heading)

/-- The heading in force after some entries: the last that any of them has. -/
def inForce (es : List Entry) : Option String := (headings es).getLast?

/-- **An entry opens a section** after others: it has a heading, and another one is in force. -/
def Opens (e : Entry) (before : List Entry) (text : String) : Prop :=
  e.heading = some text ∧ inForce before ≠ some text

variable {e : Entry} {es : List Entry} {text : String}

theorem headings_snoc (es : List Entry) (e : Entry) :
    headings (es ++ [e]) = headings es ++ e.heading.toList := by
  unfold headings
  rw [List.filterMap_append]
  cases h : e.heading <;> simp [h]

theorem newHeading_eq_some : e.newHeading (inForce es) = some text ↔ e.Opens es text := by
  unfold newHeading Opens
  split
  · next h => rw [h]; simp
  · next h =>
    refine ⟨fun htext => ⟨htext, ?_⟩, And.left⟩
    rintro hforce
    exact h (htext.trans hforce.symm)

/-- The heading of an entry is in force after it, or else the one from before. -/
theorem inForce_snoc (es : List Entry) (e : Entry) :
    inForce (es ++ [e]) = (e.newHeading (inForce es)).or (inForce es) := by
  unfold newHeading
  unfold inForce
  rw [headings_snoc]
  cases h : e.heading with
  | none => split <;> simp
  | some text =>
    split
    · next hsame => simp [← hsame]
    · simp

end Entry

open Entry (headings inForce)

/-- **How entries are set out**, given the reports on them in order; on the last there may be none.
The headings are those of the entries, without repetitions in a row. Each stands where an entry opens
a section: the reports before it are on the entries before this one, and right after it comes the
report on this entry, if there is one. -/
structure SetOut (es : List Entry) (done : List (Event × Report)) (shown : List Shown) : Prop where
  headed : shown.filterMap Shown.heading? = (headings es).destutter (· ≠ ·)
  reported : shown.filterMap Shown.report? = done.map (·.2)
  placed : ∀ earlier text later, shown = earlier ++ .heading text :: later →
    ∃ before e after, es = before ++ e :: after ∧ e.Opens before text ∧
      earlier.filterMap Shown.report? = (done.take before.length).map (·.2) ∧
      later.head? = done[before.length]?.map fun d => .report d.2

section Steps

variable {es : List Entry} {done : List (Event × Report)} {shown : List Shown}

theorem setOut_nil : SetOut [] [] [] :=
  ⟨rfl, rfl, fun earlier text later h => absurd h (by simp)⟩

/-- **An entry is entered**: its heading is shown if it opens a section. -/
theorem SetOut.enter (h : SetOut es done shown) (hlen : done.length = es.length) (e : Entry) :
    SetOut (es ++ [e]) done (shown ++ (e.newHeading (inForce es)).toList.map .heading) := by
  cases hnew : e.newHeading (inForce es) with
  | none =>
    have hkept : (headings (es ++ [e])).destutter (· ≠ ·) = (headings es).destutter (· ≠ ·) := by
      rw [Entry.headings_snoc]
      cases he : e.heading with
      | none => simp
      | some text =>
        have hforce : inForce es = some text := by
          by_contra hno
          rw [Entry.newHeading_eq_some.2 ⟨he, hno⟩] at hnew
          cases hnew
        rw [Option.toList_some, destutter_snoc]
        exact (congrArg _ (if_pos hforce)).trans (List.append_nil _)
    rw [Option.toList_none, List.map_nil, List.append_nil]
    refine ⟨h.headed.trans hkept.symm, h.reported, fun earlier text later heq => ?_⟩
    obtain ⟨before, d, after, rfl, hopens, hbefore, hafter⟩ := h.placed earlier text later heq
    exact ⟨before, d, after ++ [e], by simp, hopens, hbefore, hafter⟩
  | some text =>
    obtain ⟨he, hforce⟩ := Entry.newHeading_eq_some.1 hnew
    rw [Option.toList_some, List.map_singleton]
    refine ⟨?_, ?_, fun earlier text' later heq => ?_⟩
    · rw [List.filterMap_append, h.headed, Entry.headings_snoc, he, Option.toList_some,
        destutter_snoc]
      exact congrArg _ (if_neg hforce).symm
    · rw [List.filterMap_append, h.reported]
      exact List.append_nil _
    · rcases split_snoc heq with ⟨rfl, htext, rfl⟩ | ⟨middle, rfl, hshown⟩
      · obtain rfl : text' = text := Shown.heading.inj htext
        refine ⟨es, e, [], rfl, ⟨he, hforce⟩, ?_, ?_⟩
        · rw [← hlen, List.take_length]; exact h.reported
        · rw [List.getElem?_eq_none hlen.le]; rfl
      · -- a heading from before still has the report on its entry right after it
        obtain ⟨before, d, after, rfl, hopens, hbefore, hafter⟩ := h.placed _ _ _ hshown
        refine ⟨before, d, after ++ [e], by simp, hopens, hbefore, ?_⟩
        have hlt : before.length < done.length := by rw [hlen]; simp
        rw [List.getElem?_eq_getElem hlt] at hafter ⊢
        rw [List.head?_append, hafter]
        rfl

/-- **The entry is reported.** -/
theorem SetOut.report {e : Entry} (h : SetOut (es ++ [e]) done shown)
    (hlen : done.length = es.length) (d : Event × Report) :
    SetOut (es ++ [e]) (done ++ [d]) (shown ++ [.report d.2]) := by
  refine ⟨?_, ?_, fun earlier text later heq => ?_⟩
  · rw [List.filterMap_append, h.headed]
    exact List.append_nil _
  · rw [List.filterMap_append, h.reported, List.map_append]
    rfl
  · rcases split_snoc heq with ⟨-, htext, -⟩ | ⟨middle, rfl, hshown⟩
    · cases htext
    · obtain ⟨before, opener, after, hes, hopens, hbefore, hafter⟩ := h.placed _ _ _ hshown
      have hle : before.length ≤ done.length := by
        have hcount := congrArg List.length hes
        simp only [List.length_append, List.length_cons, List.length_nil] at hcount
        omega
      refine ⟨before, opener, after, hes, hopens, ?_, ?_⟩
      · rw [List.take_append_of_le_length hle]; exact hbefore
      · rw [List.head?_append, hafter]
        rcases hle.lt_or_eq with hlt | heq
        · rw [List.getElem?_append_left hlt, List.getElem?_eq_getElem hlt]; rfl
        · rw [heq, List.getElem?_eq_none le_rfl, List.getElem?_append_right le_rfl, Nat.sub_self]
          rfl

end Steps

/-! ## The console -/

namespace Entry

/-- The text before the report on an entry that follows others: its heading, if it opens a section. -/
def opening (colour : Bool) (before : List Entry) (e : Entry) : String :=
  match e.heading with
  | none => ""
  | some text =>
    if inForce before = some text then ""
    else "\n" ++ Text.paint colour .bold ("=== " ++ text ++ " ===") ++ "\n"

/-- **The text of entries** that follow others, with the reports on them. -/
def transcript (colour : Bool) : List Entry → List (Entry × Report) → String
  | _, [] => ""
  | before, (e, report) :: rest =>
    e.opening colour before ++ (report.render colour ++ "\n") ++
      transcript colour (before ++ [e]) rest

end Entry

namespace Setting

theorem showAll_append (colour : Bool) (front back : List Shown) :
    showAll colour (front ++ back) = showAll colour front ++ showAll colour back := by
  unfold showAll
  rw [List.map_append, String.join_append]

theorem showAll_newHeading (colour : Bool) (before : List Entry) (e : Entry) :
    showAll colour ((e.newHeading (inForce before)).toList.map .heading) =
      e.opening colour before := by
  unfold Entry.newHeading Entry.opening
  cases e.heading with
  | none => split <;> rfl
  | some text =>
    by_cases hforce : inForce before = some text
    · simp only [hforce, if_true]
      rfl
    · simp only [hforce, Ne.symm hforce, if_false]
      exact String.join_cons.trans String.append_empty

/-- **A command prints a session** under a head: all that is shown, and nothing after it if a fault
ended the session. -/
def Prints {σ : Type} (s : Setting) (head : String) (seen : Session σ)
    (run : Progress × Option CommandError) : Prop :=
  ∃ rest, run.1.stdout = head ++ (showAll s.colour seen.shown ++ rest) ∧
    ∀ why, seen.result = .error why → rest = ""

theorem dryRun_prints (s : Setting) (p : Plan) (r : Replayer) (head : String) :
    s.Prints head (r.session p.entries ({ permissive := true } : Recorder)) (s.dryRun p r head) := by
  unfold Prints dryRun
  cases hresult : (r.session p.entries ({ permissive := true } : Recorder)).result with
  | error why => exact ⟨"", by simp only [hresult, String.append_empty], fun _ _ => rfl⟩
  | ok total =>
    exact ⟨_, by simp only [hresult, String.append_assoc]; rfl, fun why hwhy => (by cases hwhy)⟩

theorem gitRun_prints {s : Setting} {repository : String} {g : Git} (hgit : s.hasGit = true)
    (hinside : Git.isRepository.run
      { script := s.script, blocked := s.files.blocked? s.directory repository } = (.ok true, g))
    (p : Plan) (r : Replayer) (head : String) :
    s.Prints head (r.session p.entries g) (s.gitRun p r repository head) := by
  unfold Prints gitRun
  simp only [hgit, Bool.not_true, Bool.false_eq_true, if_false, hinside]
  cases hresult : (r.session p.entries g).result with
  | error why => exact ⟨"", by simp only [progress, String.append_empty], fun _ _ => rfl⟩
  | ok total =>
    exact ⟨_, by simp only [progress, String.append_assoc]; rfl, fun why hwhy => (by cases hwhy)⟩

end Setting

/-! ## Sessions -/

namespace Replayer

variable {σ : Type} [Tool σ]

/-- A session that a fault ends **stops at an entry**: those before it are shown as in a session of
their own, which ends well, and after them comes the heading of this entry, if it opens a section. -/
structure StopsAt (r : Replayer) (front : List Entry) (sm : Summary) (tool : σ) (before : List Entry)
    (e : Entry) (why : Fault) (shown : List Shown) : Prop where
  result : ∃ total, (r.showFrom (inForce front) sm before tool).result = .ok total
  fault : ((r.apply e.event).run (r.showFrom (inForce front) sm before tool).tool).1 = .error why
  shown : shown = (r.showFrom (inForce front) sm before tool).shown ++
    (e.newHeading (inForce (front ++ before))).toList.map .heading

/-- **Whatever was set out before**, the entries that follow are set out after it, up to a fault. -/
theorem setOut_showFrom {front : List Entry} {done₀ : List (Event × Report)} {shown₀ : List Shown}
    (h : SetOut front done₀ shown₀) (hlen : done₀.length = front.length) (r : Replayer)
    (sm : Summary) (es : List Entry) (tool : σ) :
    let seen := r.showFrom (inForce front) sm es tool
    let done := (r.replayOnto sm (es.map (·.event)) tool).reports
    (∀ total, seen.result = .ok total →
      SetOut (front ++ es) (done₀ ++ done) (shown₀ ++ seen.shown)) ∧
    ∀ why, seen.result = .error why → ∃ before e after, es = before ++ e :: after ∧
      done.map (·.1) = before.map (·.event) ∧
      SetOut (front ++ before ++ [e]) (done₀ ++ done) (shown₀ ++ seen.shown) ∧
      r.StopsAt front sm tool before e why seen.shown := by
  induction es generalizing front done₀ shown₀ sm tool with
  | nil =>
    refine ⟨fun total _ => ?_, fun why hwhy => by cases hwhy⟩
    simp only [showFrom, List.map_nil, replayOnto, List.append_nil]
    exact h
  | cons e es ih =>
    have hentered := h.enter hlen e
    intro seen done
    simp only [seen, done, List.map_cons]
    rcases hap : (r.apply e.event).run tool with ⟨fault | report, next⟩
    · rw [replayOnto_cons_error hap, showFrom, hap]
      refine ⟨fun total htotal => (by cases htotal), fun why hwhy => ?_⟩
      refine ⟨[], e, es, rfl, rfl, ?_, ⟨_, rfl⟩, ?_, ?_⟩
      · simp only [List.append_nil]
        exact hentered
      · cases hwhy
        exact congrArg Prod.fst hap
      · simp only [List.append_nil, showFrom, List.nil_append]
    · have hreported := hentered.report hlen (e.event, report)
      have hlen' : (done₀ ++ [(e.event, report)]).length = (front ++ [e]).length := by simp [hlen]
      obtain ⟨hgood, hbad⟩ := ih hreported hlen' (sm.record report) next
      rw [replayOnto_cons_ok hap, showFrom, hap]
      rw [Entry.inForce_snoc] at hgood hbad
      simp only [List.append_assoc, List.cons_append, List.nil_append] at hgood hbad ⊢
      refine ⟨hgood, fun why hwhy => ?_⟩
      obtain ⟨before, opener, after, rfl, hdone, hset, htotal, hfault, hshown⟩ := hbad why hwhy
      refine ⟨e :: before, opener, after, rfl, ?_, hset, ?_, ?_, ?_⟩
      · rw [List.map_cons, List.map_cons, hdone]
      · rw [showFrom, hap]
        rw [Entry.inForce_snoc] at htotal
        exact htotal
      · rw [showFrom, hap]
        rw [Entry.inForce_snoc] at hfault
        exact hfault
      · rw [showFrom, hap, hshown, Entry.inForce_snoc]
        simp

/-- An entry that is reported, after others. -/
theorem showFrom_cons_ok {front : List Entry} {r : Replayer} {e : Entry} {report : Report}
    {tool next : σ} (hap : (r.apply e.event).run tool = (.ok report, next)) (sm : Summary)
    (es : List Entry) :
    let rest := r.showFrom (inForce (front ++ [e])) (sm.record report) es next
    r.showFrom (inForce front) sm (e :: es) tool =
      ⟨(e.newHeading (inForce front)).toList.map .heading ++ .report report :: rest.shown,
        rest.result, rest.tool⟩ := by
  rw [showFrom, hap, Entry.inForce_snoc]

/-- **What is printed of a session that ends well** is the text of its entries, whatever entries went
before. -/
theorem showAll_showFrom (colour : Bool) (front : List Entry) {r : Replayer} {sm total : Summary}
    {es : List Entry} {tool : σ} (h : (r.showFrom (inForce front) sm es tool).result = .ok total) :
    Setting.showAll colour (r.showFrom (inForce front) sm es tool).shown =
      Entry.transcript colour front (es.zip (r.showFrom (inForce front) sm es tool).reports) := by
  induction es generalizing front sm tool with
  | nil => rfl
  | cons e es ih =>
    rcases hap : (r.apply e.event).run tool with ⟨why | report, next⟩
    · rw [showFrom, hap] at h
      cases h
    · rw [showFrom_cons_ok hap] at h ⊢
      have hreport : ∀ shown, Setting.showAll colour (.report report :: shown) =
          report.render colour ++ "\n" ++ Setting.showAll colour shown := fun _ => String.join_cons
      have hreports : ∀ shown : List Shown, (Shown.report report :: shown).filterMap Shown.report? =
          report :: shown.filterMap Shown.report? := fun _ => rfl
      unfold Session.reports at ih ⊢
      rw [filterMap_heading, hreports, List.zip_cons_cons, Entry.transcript, Setting.showAll_append,
        Setting.showAll_newHeading, hreport, ih (front ++ [e]) h]
      simp only [String.append_assoc]

/-- **Headings open the sections of a plan.** Let a session go through a plan with any tool. If it
ends well, every entry is reported, and the entries are set out with their headings. If a fault ends
it at an entry, the entries before it are shown as in a session of their own, which ends well, and
nothing follows but the heading of this entry, if it opens a section: so the entries up to this one
are set out in the same way.

What is shown is printed, heading by heading and report by report: of entries that are all reported it
is their text, and of those before a fault it is theirs, with the heading of the entry at fault. A dry
run prints this of its recorder and a replay of its git, each under its head. -/
theorem sections_set_out (s : Setting) (r : Replayer) (p : Plan) (tool : σ) :
    let seen := r.session p.entries tool
    let done := (r.replay p.events tool).reports
    let printed := Setting.showAll s.colour seen.shown
    (∀ total, seen.result = .ok total →
      done.map (·.1) = p.events ∧ SetOut p.entries done seen.shown ∧
      printed = Entry.transcript s.colour [] (p.entries.zip (done.map (·.2)))) ∧
    (∀ why, seen.result = .error why → ∃ before e after, p.entries = before ++ e :: after ∧
      done.map (·.1) = before.map (·.event) ∧ SetOut (before ++ [e]) done seen.shown ∧
      (∃ total, (r.session before tool).result = .ok total) ∧
      ((r.apply e.event).run (r.session before tool).tool).1 = .error why ∧
      seen.shown = (r.session before tool).shown ++
        (e.newHeading (inForce before)).toList.map .heading ∧
      printed = Entry.transcript s.colour [] (before.zip (done.map (·.2))) ++
        e.opening s.colour before) ∧
    (∀ head, s.Prints head (r.session p.entries ({ permissive := true } : Recorder))
      (s.dryRun p r head)) ∧
    ∀ (repository head : String) (g : Git), s.hasGit = true → Git.isRepository.run
        { script := s.script, blocked := s.files.blocked? s.directory repository } = (.ok true, g) →
      s.Prints head (r.session p.entries g) (s.gitRun p r repository head) := by
  intro seen done printed
  obtain ⟨hgood, hbad⟩ := setOut_showFrom setOut_nil rfl r {} p.entries tool
  obtain ⟨hresult, -, hreports⟩ := showFrom_eq_replayOnto (r := r) none {} p.entries tool
  have hdone : done.map (·.2) = seen.reports := hreports.symm
  refine ⟨fun total htotal => ⟨?_, hgood total htotal, ?_⟩, fun why hwhy => ?_,
    s.dryRun_prints p r, fun repository head g hgit hinside =>
      Setting.gitRun_prints hgit hinside p r head⟩
  · exact events_of_result (hresult.symm.trans htotal)
  · rw [hdone]
    exact showAll_showFrom s.colour [] htotal
  · obtain ⟨before, e, after, hes, hevents, hset, hstops⟩ := hbad why hwhy
    obtain ⟨total, htotal⟩ := hstops.result
    have hshown : seen.shown = (r.session before tool).shown ++
        (e.newHeading (inForce before)).toList.map .heading := hstops.shown
    refine ⟨before, e, after, hes, hevents, hset, ⟨total, htotal⟩, hstops.fault, hshown, ?_⟩
    -- a heading is no report, so the reports are those of the entries before the fault
    have hbefore : done.map (·.2) = (r.session before tool).reports := by
      have hnone := filterMap_heading (e.newHeading (inForce before)) []
      rw [List.append_nil] at hnone
      rw [hdone, Session.reports, hshown, List.filterMap_append, hnone]
      exact List.append_nil _
    have htext : Setting.showAll s.colour (r.session before tool).shown =
        Entry.transcript s.colour [] (before.zip (r.session before tool).reports) :=
      showAll_showFrom s.colour [] htotal
    simp only [printed]
    rw [hshown, Setting.showAll_append, Setting.showAll_newHeading, htext, hbefore]

/-- A heading that comes again after an entry without one is shown once, and that of the entry where
the calendar ends is the last thing printed. -/
theorem heading_shown_before_fault :
    let anchor : Anchor := ⟨⟨⟨2025, 10, 18, by decide⟩, ⟨9, 0, 0, by decide, by decide, by decide⟩⟩⟩
    let authors : Authors := ⟨⟨"Ada", "a@x"⟩, ⟨"Grace", "g@x"⟩⟩
    let entry : Option String → UInt32 → Entry := fun heading day =>
      ⟨heading, ⟨"main", .first, ⟨day, 9, 0⟩, .change "more" .nothing⟩⟩
    let p : Plan := ⟨anchor, authors, [],
      [entry (some "Start") 0, entry none 1, entry (some "Start") 2, entry (some "End") 4294967295,
        entry (some "More") 3]⟩
    let r : Replayer := ⟨anchor, authors, []⟩
    let s : Setting := { files := .directory [], directory := "/" }
    let seen := r.session p.entries ({ permissive := true } : Recorder)
    (∃ why, seen.result = .error why) ∧ seen.shown.filterMap Shown.heading? = ["Start", "End"] ∧
      (∃ before e after, p.entries = before ++ e :: after ∧ e.Opens before "End") ∧
      ∃ front, (s.dryRun p r "head\n").1.stdout = "head\n" ++ (front ++ "\n=== End ===\n") := by
  intro anchor authors entry p r s seen
  have hfaulted : ∃ why, seen.result = .error why := by
    cases hresult : seen.result with
    | ok total =>
      have hno : seen.result.isOk = false := by decide +kernel
      rw [hresult] at hno; cases hno
    | error why => exact ⟨why, rfl⟩
  obtain ⟨why, hwhy⟩ := hfaulted
  have hlast : seen.shown.getLast? = some (.heading "End") := by decide +kernel
  obtain ⟨-, hbad, hdry, -⟩ := sections_set_out s r p ({ permissive := true } : Recorder)
  obtain ⟨before, e, after, hes, -, hset, -⟩ := hbad why hwhy
  obtain ⟨earlier, hshown⟩ := List.getLast?_eq_some_iff.1 hlast
  obtain ⟨front, opener, back, hfront, hopens, -⟩ := hset.placed earlier "End" [] hshown
  refine ⟨⟨why, hwhy⟩, by decide +kernel, ⟨front, opener, back ++ after, ?_, hopens⟩, ?_⟩
  · rw [hes, List.append_cons, hfront, List.append_assoc, List.cons_append]
  · obtain ⟨rest, hstdout, hrest⟩ := hdry "head\n"
    rw [hrest why hwhy, String.append_empty, hshown, Setting.showAll_append] at hstdout
    exact ⟨_, hstdout⟩

end Replayer

end Backdate
