import Backdate.Plan.Basic

/-!
# Valid plans

What a plan has to be, said of what is written and not of how it is checked
(`PlanSpec.HeaderValid`, `EventSpec.Valid`), and the entry that an event stands
for if nothing is wrong with it (`EventSpec.entry`). The check accepts exactly
the valid plans, keeps all that they say, and names the first event that is not
valid (`ofSpec_accepts_iff`).

Each check has a lemma that says when it passes; those of an event, of the events
and of the plan are put together from them.
-/

namespace Backdate

/-! ## What is valid -/

/-- There is something in a text besides blanks. -/
def Text.NonBlank (s : String) : Prop := ∃ c ∈ s.toList, Text.isBlank c = false

/-- A path that starts at the root of the repository. -/
structure RelativePath (path : String) : Prop where
  nonBlank : Text.NonBlank path
  relative : path.toList.head? ≠ some '/'

structure Identity.Valid (i : Identity) : Prop where
  name : Text.NonBlank i.name
  email : '@' ∈ i.email.toList

/-- The authors and the excluded paths of a plan are right. -/
structure PlanSpec.HeaderValid (s : PlanSpec) : Prop where
  first : s.authors.first.Valid
  second : s.authors.second.Valid
  exclude : ∀ path ∈ s.exclude, RelativePath path

/-- The texts and paths of an event are right: a change lists paths or takes everything and not
both, a deletion lists at least one path, and nothing is merged into itself. -/
def ActionSpec.Valid : ActionSpec → Prop
  | .change branch message paths stageAll =>
    Text.NonBlank branch ∧ Text.NonBlank message ∧ (paths = none ∨ stageAll = false) ∧
      ∀ listed, paths = some listed → ∀ path ∈ listed, RelativePath path
  | .deletion branch message paths =>
    Text.NonBlank branch ∧ Text.NonBlank message ∧ paths ≠ [] ∧ ∀ path ∈ paths, RelativePath path
  | .merge target source => Text.NonBlank target ∧ Text.NonBlank source ∧ target ≠ source
  | .tag name branch message =>
    Text.NonBlank name ∧ Text.NonBlank branch ∧ Text.NonBlank message

/-- An event that is right, at a time that has a moment. -/
structure EventSpec.Valid (a : Anchor) (e : EventSpec) : Prop where
  hour : e.time.hour ≤ 23
  minute : e.time.minute ≤ 59
  action : e.action.Valid
  moment : ∃ m, a.resolve e.time = .ok m

/-! ## What a valid plan says -/

/-- The branch of an event; that of a merge is its target. -/
def ActionSpec.branch : ActionSpec → String
  | .change branch .. => branch
  | .deletion branch .. => branch
  | .merge target _ => target
  | .tag _ branch _ => branch

/-- The action that is written down, with its names, messages and paths as they are. -/
def ActionSpec.action : ActionSpec → Action
  | .change _ message (some paths) _ => .change message (.listed paths)
  | .change _ message none true => .change message .everything
  | .change _ message none false => .change message .nothing
  | .deletion _ message paths => .deletion message paths
  | .merge _ source => .merge source
  | .tag name _ message => .tag name message

/-- The entry that is written down. -/
def EventSpec.entry (e : EventSpec) : Entry :=
  ⟨e.heading, ⟨e.action.branch, e.author, e.time, e.action.action⟩⟩

namespace Plan

variable {α β ε : Type}

/-! ## Checks in sequence -/

theorem bind_eq_ok {x : Except ε α} {f : α → Except ε β} {b : β} :
    (x >>= f) = .ok b ↔ ∃ a, x = .ok a ∧ f a = .ok b := by
  cases x <;> simp [bind, Except.bind]

theorem pure_eq_ok {a b : α} : (pure a : Except ε α) = .ok b ↔ b = a := by
  simp [pure, Except.pure, eq_comm]

/-- A check that refuses in one case only. -/
theorem refuse_eq_ok {c : Prop} [Decidable c] {why : ε} {k : α → Except ε β} {x : Except ε β}
    {b : β} : (if c then throw why >>= k else x) = .ok b ↔ ¬ c ∧ x = .ok b := by
  by_cases h : c
  · simp [h, bind, Except.bind, throw, throwThe, MonadExceptOf.throw]
  · simp [h]

theorem exists_unit {p : Unit → Prop} : (∃ u, p u) ↔ p () := ⟨fun ⟨_, h⟩ => h, fun h => ⟨(), h⟩⟩

/-! ## Single checks -/

theorem checkText_ok {field value : String} :
    checkText field value = .ok () ↔ Text.NonBlank value := by
  unfold checkText Text.NonBlank Text.allBlank
  cases h : value.toList.all Text.isBlank with
  | true =>
    have hall := List.all_eq_true.1 h
    refine iff_of_false (by simp) ?_
    rintro ⟨c, hc, hno⟩
    rw [hall c hc] at hno; cases hno
  | false =>
    refine iff_of_true (by simp) ?_
    obtain ⟨c, hc, hno⟩ := List.all_eq_false.1 h
    exact ⟨c, hc, Bool.eq_false_iff.2 hno⟩

theorem checkTime_ok {t : EventTime} : checkTime t = .ok () ↔ t.hour ≤ 23 ∧ t.minute ≤ 59 := by
  unfold checkTime
  by_cases hhour : 23 < t.hour
  · have hno : ¬ t.hour ≤ 23 := UInt8.not_le.2 hhour
    simp [hhour, hno]
  have hhour' : t.hour ≤ 23 := UInt8.not_lt.1 hhour
  by_cases hminute : 59 < t.minute
  · have hno : ¬ t.minute ≤ 59 := UInt8.not_le.2 hminute
    simp [hhour, hminute, hno]
  · have hminute' : t.minute ≤ 59 := UInt8.not_lt.1 hminute
    simp [hhour, hminute, hhour', hminute']

theorem checkPath_ok {path : String} : checkPath path = .ok () ↔ RelativePath path := by
  have habsolute : isAbsolutePath path = true ↔ path.toList.head? = some '/' := by
    simp [isAbsolutePath]
  simp only [checkPath, bind_eq_ok, exists_unit, checkText_ok]
  by_cases h : isAbsolutePath path = true
  · rw [if_pos h]
    exact iff_of_false (by simp) fun hrel => hrel.relative (habsolute.1 h)
  · rw [if_neg h]
    exact ⟨fun hok => ⟨hok.1, mt habsolute.2 h⟩, fun hrel => ⟨hrel.nonBlank, rfl⟩⟩

theorem checkPaths_ok {paths : List String} :
    checkPaths paths = .ok () ↔ ∀ path ∈ paths, RelativePath path := by
  unfold checkPaths
  induction paths with
  | nil => exact iff_of_true rfl (by simp)
  | cons path paths ih =>
    have hcons : (path :: paths).forM checkPath =
        checkPath path >>= fun _ => paths.forM checkPath := rfl
    rw [hcons, bind_eq_ok, exists_unit, ih, checkPath_ok, List.forall_mem_cons]

theorem selection_ok (branch message : String) {paths : Option (List String)} {stageAll : Bool}
    {chosen : PathSelection} :
    selection paths stageAll = .ok chosen ↔
      ((paths = none ∨ stageAll = false) ∧
        ∀ listed, paths = some listed → ∀ path ∈ listed, RelativePath path) ∧
      (ActionSpec.change branch message paths stageAll).action = .change message chosen := by
  cases paths with
  | none => cases stageAll <;> simp [selection, ActionSpec.action]
  | some listed =>
    cases stageAll with
    | true => simp [selection]
    | false =>
      simp only [selection, bind_eq_ok, exists_unit, checkPaths_ok, pure_eq_ok, ActionSpec.action]
      simp [eq_comm]

theorem checkIdentity_ok {author : Author} {i : Identity} :
    checkIdentity author i = .ok () ↔ i.Valid := by
  simp only [checkIdentity, bind_eq_ok, exists_unit, checkText_ok]
  by_cases h : '@' ∈ i.email.toList
  · simp only [List.contains_eq_mem, h, decide_true, Bool.not_true, Bool.false_eq_true, if_false]
    exact ⟨fun hok => ⟨hok.1, h⟩, fun hvalid => ⟨hvalid.name, rfl⟩⟩
  · simp only [List.contains_eq_mem, h, decide_false, Bool.not_false, if_true]
    exact iff_of_false (fun hok => by cases hok.2) fun hvalid => h hvalid.email

theorem checkHeader_ok {s : PlanSpec} : checkHeader s = .ok () ↔ s.HeaderValid := by
  simp only [checkHeader, bind_eq_ok, exists_unit, checkIdentity_ok, checkPaths_ok]
  exact ⟨fun ⟨hfirst, hsecond, hexclude⟩ => ⟨hfirst, hsecond, hexclude⟩,
    fun h => ⟨h.first, h.second, h.exclude⟩⟩

/-! ## Events -/

/-- **An event passes if its texts, paths and clock are right, and comes out as it is written.** -/
theorem checkEvent_ok {e : EventSpec} {event : Event} :
    checkEvent e = .ok event ↔
      (e.time.hour ≤ 23 ∧ e.time.minute ≤ 59) ∧ e.action.Valid ∧ event = e.entry.event := by
  rcases e with ⟨heading, author, time, action⟩
  -- each kind has checks of its own, and the clock is the last of them
  cases action with
  | change branch message paths stageAll =>
    simp only [checkEvent, bind_eq_ok, exists_unit, checkText_ok, checkTime_ok, pure_eq_ok,
      selection_ok branch message, ActionSpec.Valid, EventSpec.entry,
      ActionSpec.branch]
    constructor
    · rintro ⟨hbranch, hmessage, chosen, ⟨hpaths, haction⟩, htime, rfl⟩
      exact ⟨htime, ⟨hbranch, hmessage, hpaths⟩, by rw [haction]⟩
    · rintro ⟨htime, ⟨hbranch, hmessage, hpaths⟩, rfl⟩
      obtain ⟨chosen, haction⟩ : ∃ chosen,
          (ActionSpec.change branch message paths stageAll).action = .change message chosen := by
        cases paths <;> cases stageAll <;> exact ⟨_, rfl⟩
      exact ⟨hbranch, hmessage, chosen, ⟨hpaths, haction⟩, htime, by rw [haction]⟩
  | deletion branch message paths =>
    simp only [checkEvent, bind_eq_ok, exists_unit, checkText_ok, checkTime_ok, checkPaths_ok,
      pure_eq_ok, refuse_eq_ok, List.isEmpty_iff, ActionSpec.Valid, EventSpec.entry,
      ActionSpec.branch, ActionSpec.action]
    constructor
    · rintro ⟨hbranch, hmessage, hsome, hpaths, htime, rfl⟩
      exact ⟨htime, ⟨hbranch, hmessage, hsome, hpaths⟩, rfl⟩
    · rintro ⟨htime, ⟨hbranch, hmessage, hsome, hpaths⟩, rfl⟩
      exact ⟨hbranch, hmessage, hsome, hpaths, htime, rfl⟩
  | merge target source =>
    simp only [checkEvent, bind_eq_ok, exists_unit, checkText_ok, checkTime_ok, pure_eq_ok,
      refuse_eq_ok, ActionSpec.Valid, EventSpec.entry, ActionSpec.branch, ActionSpec.action]
    constructor
    · rintro ⟨htarget, hsource, hne, htime, rfl⟩
      exact ⟨htime, ⟨htarget, hsource, hne⟩, rfl⟩
    · rintro ⟨htime, ⟨htarget, hsource, hne⟩, rfl⟩
      exact ⟨htarget, hsource, hne, htime, rfl⟩
  | tag name branch message =>
    simp only [checkEvent, bind_eq_ok, exists_unit, checkText_ok, checkTime_ok, pure_eq_ok,
      ActionSpec.Valid, EventSpec.entry, ActionSpec.branch, ActionSpec.action]
    constructor
    · rintro ⟨hname, hbranch, hmessage, htime, rfl⟩
      exact ⟨htime, ⟨hname, hbranch, hmessage⟩, rfl⟩
    · rintro ⟨htime, ⟨hname, hbranch, hmessage⟩, rfl⟩
      exact ⟨hname, hbranch, hmessage, htime, rfl⟩

theorem checkEntry_ok {a : Anchor} {e : EventSpec} {entry : Entry} :
    checkEntry a e = .ok entry ↔ e.Valid a ∧ entry = e.entry := by
  simp only [checkEntry, bind_eq_ok, checkEvent_ok]
  constructor
  · rintro ⟨event, ⟨⟨hhour, hminute⟩, haction, rfl⟩, h⟩
    have htime : e.entry.event.time = e.time := rfl
    rw [htime] at h
    cases hm : a.resolve e.time with
    | error why => rw [hm] at h; cases h
    | ok m =>
      rw [hm] at h
      cases h
      exact ⟨⟨hhour, hminute, haction, m, hm⟩, rfl⟩
  · rintro ⟨⟨hhour, hminute, haction, m, hm⟩, rfl⟩
    refine ⟨e.entry.event, ⟨⟨hhour, hminute⟩, haction, rfl⟩, ?_⟩
    have hresolve : a.resolve e.entry.event.time = .ok m := hm
    rw [hresolve]; rfl

/-- **The entries pass if every event is valid, and come out as they are written, in order.** -/
theorem checkEntries_ok {a : Anchor} {k : Nat} {specs : List EventSpec} {entries : List Entry} :
    checkEntries a k specs = .ok entries ↔
      (∀ e ∈ specs, e.Valid a) ∧ entries = specs.map EventSpec.entry := by
  induction specs generalizing k entries with
  | nil => simp [checkEntries, eq_comm]
  | cons e specs ih =>
    rw [checkEntries, List.forall_mem_cons, List.map_cons]
    cases hentry : checkEntry a e with
    | error why =>
      refine iff_of_false (by simp) fun h => ?_
      rw [checkEntry_ok.2 ⟨h.1.1, rfl⟩] at hentry; cases hentry
    | ok entry =>
      obtain ⟨hvalid, rfl⟩ := checkEntry_ok.1 hentry
      cases hrest : checkEntries a (k + 1) specs with
      | error why =>
        refine iff_of_false (by simp [Except.map]) fun h => ?_
        rw [ih.2 ⟨h.1.2, rfl⟩] at hrest; cases hrest
      | ok rest =>
        obtain ⟨hall, rfl⟩ := ih.1 hrest
        simp only [Except.map, Except.ok.injEq]
        exact ⟨fun h => ⟨⟨hvalid, hall⟩, h.symm⟩, fun h => h.2.symm⟩

/-- The error of the entries is that of the first event that is not valid, under its number. -/
theorem checkEntries_error {a : Anchor} {k : Nat} {before : List EventSpec} {e : EventSpec}
    (hbefore : ∀ d ∈ before, d.Valid a) (he : ¬ e.Valid a) (after : List EventSpec) :
    ∃ why, checkEntries a k (before ++ e :: after) = .error (.event (k + before.length) why) := by
  induction before generalizing k with
  | nil =>
    cases hentry : checkEntry a e with
    | error why => exact ⟨why, by rw [List.nil_append, checkEntries, hentry]; rfl⟩
    | ok entry => exact absurd (checkEntry_ok.1 hentry).1 he
  | cons d before ih =>
    obtain ⟨hd, hrest⟩ := List.forall_mem_cons.1 hbefore
    obtain ⟨why, hwhy⟩ := ih (k := k + 1) hrest
    refine ⟨why, ?_⟩
    rw [List.cons_append, checkEntries, checkEntry_ok.2 ⟨hd, rfl⟩, hwhy, List.length_cons]
    simp only [Except.map]
    congr 2; omega

/-! ## Plans -/

theorem ofSpec_eq {s : PlanSpec} {a : Anchor} (ha : Anchor.parse s.start = .ok a)
    (hheader : s.HeaderValid) :
    ofSpec s =
      (checkEntries a 1 s.events).map fun entries => ⟨a, s.authors, s.exclude, entries⟩ := by
  unfold ofSpec
  rw [ha, checkHeader_ok.2 hheader]

/-- **A plan passes if its anchor, its header and its events are valid, and says what is
written.** -/
theorem ofSpec_ok {s : PlanSpec} {p : Plan} :
    ofSpec s = .ok p ↔
      Anchor.parse s.start = .ok p.anchor ∧ s.HeaderValid ∧ (∀ e ∈ s.events, e.Valid p.anchor) ∧
        p.authors = s.authors ∧ p.exclude = s.exclude ∧
        p.entries = s.events.map EventSpec.entry := by
  constructor
  · intro h
    unfold ofSpec at h
    cases ha : Anchor.parse s.start with
    | error why => rw [ha] at h; cases h
    | ok a =>
      rw [ha] at h
      cases hheader : checkHeader s with
      | error why => rw [hheader] at h; cases h
      | ok u =>
        rw [hheader] at h
        cases hentries : checkEntries a 1 s.events with
        | error why => simp only [hentries] at h; cases h
        | ok entries =>
          simp only [hentries] at h
          cases h
          obtain ⟨hevents, hsame⟩ := checkEntries_ok.1 hentries
          exact ⟨rfl, checkHeader_ok.1 hheader, hevents, rfl, rfl, hsame⟩
  · rintro ⟨ha, hheader, hevents, hauthors, hexclude, hentries⟩
    rw [ofSpec_eq ha hheader, checkEntries_ok.2 ⟨hevents, rfl⟩]
    rcases p with ⟨anchor, authors, exclude, entries⟩
    simp only at hauthors hexclude hentries
    rw [hauthors, hexclude, hentries]; rfl

theorem parse_ok {text : String} {p : Plan} :
    parse text = .ok p ↔ ∃ s, readSpec text = .ok s ∧ ofSpec s = .ok p := bind_eq_ok

/-- **Every event of a checked plan is what a valid event says.** -/
theorem valid_of_parse {text : String} {p : Plan} (h : parse text = .ok p) :
    ∀ e ∈ p.events, ∃ spec : EventSpec, spec.Valid p.anchor ∧ spec.entry.event = e := by
  obtain ⟨s, -, hs⟩ := parse_ok.1 h
  obtain ⟨-, -, hevents, -, -, hentries⟩ := ofSpec_ok.1 hs
  unfold events
  rw [hentries, List.map_map]
  intro e he
  obtain ⟨spec, hspec, rfl⟩ := List.mem_map.1 he
  exact ⟨spec, hevents spec hspec, rfl⟩

/-- **The check accepts exactly the valid plans and loses nothing.** For everything that can be
written down as a plan, and every text that spells it: it is accepted if and only if its anchor can
be read, its header is valid and every event is valid from that anchor. If it is accepted, the plan
has the anchor, the authors, the excluded paths and the entries that are written, in order. If only
events are wrong, the error names the first of them by its number, counted from one. -/
theorem ofSpec_accepts_iff (s : PlanSpec) :
    (∀ text, readSpec text = .ok s → parse text = ofSpec s) ∧
    ((∃ p, ofSpec s = .ok p) ↔
      ∃ a, Anchor.parse s.start = .ok a ∧ s.HeaderValid ∧ ∀ e ∈ s.events, e.Valid a) ∧
    (∀ p, ofSpec s = .ok p →
      Anchor.parse s.start = .ok p.anchor ∧ p.authors = s.authors ∧ p.exclude = s.exclude ∧
        p.entries = s.events.map EventSpec.entry) ∧
    ∀ a before e after, Anchor.parse s.start = .ok a → s.HeaderValid →
      s.events = before ++ e :: after → (∀ d ∈ before, d.Valid a) → ¬ e.Valid a →
      ∃ why, ofSpec s = .error (.event (before.length + 1) why) ∧
        (Refusal.event (before.length + 1) why).causes =
          [.plain ("Invalid event #" ++ (before.length + 1).repr), .plain why.message] := by
  refine ⟨fun text h => ?_, ⟨?_, ?_⟩, fun p h => ?_, fun a before e after ha hheader hs hb he => ?_⟩
  · unfold parse
    rw [h]; rfl
  · rintro ⟨p, h⟩
    obtain ⟨ha, hheader, hevents, -⟩ := ofSpec_ok.1 h
    exact ⟨p.anchor, ha, hheader, hevents⟩
  · rintro ⟨a, ha, hheader, hevents⟩
    exact ⟨⟨a, s.authors, s.exclude, s.events.map EventSpec.entry⟩,
      ofSpec_ok.2 ⟨ha, hheader, hevents, rfl, rfl, rfl⟩⟩
  · obtain ⟨ha, -, -, hauthors, hexclude, hentries⟩ := ofSpec_ok.1 h
    exact ⟨ha, hauthors, hexclude, hentries⟩
  · obtain ⟨why, hwhy⟩ := checkEntries_error (k := 1) hb he after
    refine ⟨why, ?_, rfl⟩
    rw [ofSpec_eq ha hheader, hs, hwhy, Nat.add_comm]; rfl

end Plan

end Backdate
