import Backdate.Proofs.DryRun
import Backdate.Proofs.Recorded
import Backdate.Proofs.Resolution

/-!
# The date of an event to come

`when` shows the moment of a time without an event at that time. What it shows can be held
against the plan that has such an event: it shows a line if and only if that plan is
accepted, and the line is then the date of the event in every replay (`when_tells_date`).

* `Plan.Dates`: what it is to be the date of an event of a plan, on git, on a recorder and
  in the reports of any tool;
* `ofSpec_withEvent`: a plan with one more event is accepted if and only if this event is
  valid from the anchor of the plan;
* `when_shows`: a line is shown if and only if the time is on the clock and has a moment.

The two sides check the clock and resolve the time on their own; but for its time the
event is any valid one, put in at any place.
-/

namespace Backdate

open Calendar

/-! ## Dates -/

/-- Variables of a process that have the line for the date of the author and for that of the
committer. -/
def CarriesDate (environment : List (String × String)) (line : String) : Prop :=
  environment.lookup "GIT_AUTHOR_DATE" = some line ∧
    environment.lookup "GIT_COMMITTER_DATE" = some line

/-- The variables of the calls of an episode that write history. -/
def Git.signed (ep : Episode Git) : List (List (String × String)) :=
  ((processes ep).filter (·.call.writesHistory)).map (·.call.environment)

/-- The variables of the commits, merges and tags that an episode recorded. -/
def Recorder.signed (ep : Episode Recorder) : List (List (String × String)) :=
  ((recorded ep).filterMap (·.stamp?)).map (·.environment)

/-- What was written in an episode has the line for its dates, and something was written if the
event is reported as a success. -/
structure Episode.Dated {σ : Type} (ep : Episode σ) (written : List (List (String × String)))
    (line : String) : Prop where
  dated : ∀ environment ∈ written, CarriesDate environment line
  written : ∀ report, ep.result = .ok report → report.succeeded = true → written ≠ []

/-- **The line is the date of an event at a place of a plan**, in every replay from the anchor of
the plan, whatever it leaves out, and on every tool: what is reported at this place is the event,
with the line for its timestamp, and if no fault ends the replay, it is reported. A recorder makes
no fault. What the event writes, on git or on a recorder, has the line for both dates. -/
structure Plan.Dates (p : Plan) (place : Nat) (e : Event) (line : String) : Prop where
  reported : ∀ {σ : Type} [Tool σ] (r : Replayer) (tool : σ), r.anchor = p.anchor →
    ∀ d report, (r.replay p.events tool).reports[place]? = some (d, report) →
      d = e ∧ report.timestamp.text = line
  reached : ∀ {σ : Type} [Tool σ] (r : Replayer) (tool : σ), r.anchor = p.anchor →
    ∀ total, (r.replay p.events tool).result = .ok total →
      ∃ report, (r.replay p.events tool).reports[place]? = some (e, report)
  rehearsed : ∀ (r : Replayer) (t : Recorder), r.anchor = p.anchor →
    ∃ total, (r.replay p.events t).result = .ok total
  git : ∀ (r : Replayer) (g : Git), r.anchor = p.anchor →
    ∀ ep, (r.episodes p.events g)[place]? = some ep → ep.event = e ∧ ep.Dated (Git.signed ep) line
  recorder : ∀ (r : Replayer) (t : Recorder), r.anchor = p.anchor →
    ∀ ep, (r.episodes p.events t)[place]? = some ep →
      ep.event = e ∧ ep.Dated (Recorder.signed ep) line

namespace Replayer

variable {σ : Type} [Tool σ] {r : Replayer} {e : Event} {es : List Event} {s : σ}

/-- The reports of a replay follow its events in order, as far as it comes. -/
theorem reports_events (r : Replayer) (sm : Summary) (es : List Event) (s : σ) :
    (r.replayOnto sm es s).reports.map (·.1) <+: es := by
  induction es generalizing sm s with
  | nil => exact List.nil_prefix
  | cons e es ih =>
    rcases hap : (r.apply e).run s with ⟨why | report, t⟩
    · rw [replayOnto_cons_error hap]
      exact List.nil_prefix
    · rw [replayOnto_cons_ok hap, List.map_cons, List.prefix_cons_inj]
      exact ih (sm.record report) t

/-- What stands at a place of a list that follows the events is about the event at this place. -/
theorem eq_of_place {α : Type} {f : α → Event} {xs : List α} {place : Nat} {x : α}
    (hxs : xs.map f <+: es) (hx : xs[place]? = some x) (he : es[place]? = some e) : f x = e := by
  obtain ⟨rest, rfl⟩ := hxs
  have hmap : (xs.map f)[place]? = some (f x) := by rw [List.getElem?_map, hx, Option.map_some]
  have hlt : place < (xs.map f).length := (List.getElem?_eq_some_iff.1 hmap).1
  rw [List.getElem?_append_left hlt, hmap] at he
  exact Option.some.inj he

/-- What is reported at a place is the event at this place, at its moment. -/
theorem reported_of_place {place : Nat} {m : Moment} {d : Event} {report : Report}
    (he : es[place]? = some e) (hm : r.anchor.resolve e.time = .ok m)
    (h : (r.replay es s).reports[place]? = some (d, report)) : d = e ∧ report.timestamp = m := by
  obtain rfl : d = e := eq_of_place (r.reports_events {} es s) h he
  obtain ⟨m', outcome, warnings, hm', hreport⟩ := reported_of_mem (List.mem_of_getElem? h)
  obtain rfl : m = m' := Except.ok.inj (hm.symm.trans hm')
  have hreport : report = d.report m outcome warnings := hreport
  rw [hreport]
  exact ⟨rfl, rfl⟩

/-- A replay that ends well has reported the event at every place. -/
theorem report_of_result {place : Nat} {total : Summary} (he : es[place]? = some e)
    (h : (r.replay es s).result = .ok total) :
    ∃ report, (r.replay es s).reports[place]? = some (e, report) := by
  have hevents : (r.replay es s).reports.map (·.1) = es := events_of_result h
  rw [← hevents, List.getElem?_map, Option.map_eq_some_iff] at he
  obtain ⟨⟨d, report⟩, hreport, rfl⟩ := he
  exact ⟨report, hreport⟩

end Replayer

theorem Replayer.carriesDate_signature (r : Replayer) (e : Event) (m : Moment) :
    CarriesDate (r.signature e m) m.text := ⟨rfl, rfl⟩

section Episodes

variable {r : Replayer} {es : List Event} {m : Moment}

/-- **What an event writes on git has the dates of its moment.** -/
theorem Git.dated_of_mem {g : Git} {ep : Episode Git} (h : ep ∈ r.episodes es g)
    (hm : r.anchor.resolve ep.event.time = .ok m) : ep.Dated (signed ep) m.text := by
  obtain ⟨-, hcourse⟩ := course_of_mem h
  refine ⟨fun environment henv => ?_, fun report hresult hok => ?_⟩
  · obtain ⟨p, hp, rfl⟩ := List.mem_map.1 henv
    obtain ⟨hp, hwrites⟩ := List.mem_filter.1 hp
    obtain ⟨m', hm', hsigned⟩ := (hcourse.attributed p hp).signed hwrites
    obtain rfl : m = m' := Except.ok.inj (hm.symm.trans hm')
    rw [hsigned]
    exact r.carriesDate_signature ep.event m
  · rw [hresult] at hcourse
    obtain ⟨p, hp, hwrites, -⟩ := hcourse.verdict.1 hok
    have hmem : p.call.environment ∈ signed ep :=
      List.mem_map_of_mem (List.mem_filter.2 ⟨hp, hwrites⟩)
    exact List.ne_nil_of_mem hmem

namespace Recorder

variable {e : Event} {t : Recorder}

/-- An event that is reported as a success has recorded the operation that writes. -/
theorem writing_of_succeeded (hok : (event r e m t).1.succeeded = true) :
    ∃ is, (event r e m t).2.calls = t.calls ++ is ∧
      ∃ i ∈ is, i.operation = e.writing (r.stamp e.author m) := by
  unfold event at hok ⊢
  by_cases hswitch : (t.switch e.branch).1.isSuccess = true
  · simp only [if_pos hswitch]
    have hswitched : (t.switch e.branch).2.calls = t.calls ++ [t.invocation (.switch e.branch)] :=
      (t.step_records (.switch e.branch)).1
    obtain ⟨prepared, hprepared, -⟩ := (t.switch e.branch).2.steps_calls (r.preparations e)
    generalize ((t.switch e.branch).2.steps (r.preparations e)).2 = t₂ at hprepared
    refine ⟨[t.invocation (.switch e.branch)] ++ prepared ++
      [t₂.invocation (e.writing (r.stamp e.author m))], ?_, _,
      List.mem_append_right _ (List.mem_singleton.2 rfl), operation_invocation t₂ _⟩
    rw [(t₂.step_records _).1, hprepared, hswitched]
    simp only [List.append_assoc]
  · simp only [if_neg hswitch] at hok
    exact absurd hok hswitch

theorem stamp?_writing (e : Event) (stamp : Stamp) :
    (e.writing stamp).stamp? = some stamp := by
  rcases e with ⟨branch, author, time, action⟩
  cases action <;> rfl

/-- **What an event writes on a recorder has the dates of its moment.** -/
theorem dated_of_mem {ep : Episode Recorder} (h : ep ∈ r.episodes es t)
    (hm : r.anchor.resolve ep.event.time = .ok m) : ep.Dated (signed ep) m.text := by
  have heq : ep = r.episode ep.event ep.before := (Replayer.mem_episodes h).2
  refine ⟨fun environment henv => ?_, fun report hresult hok => ?_⟩
  · obtain ⟨stamp, hstamp, rfl⟩ := List.mem_map.1 henv
    obtain ⟨i, hi, hstamp⟩ := List.mem_filterMap.1 hstamp
    rw [heq] at hi
    obtain ⟨m', hm', hsigned⟩ := stamp_of_mem_recorded hi hstamp
    obtain rfl : m = m' := Except.ok.inj (hm.symm.trans hm')
    rw [hsigned]
    exact r.carriesDate_signature ep.event m
  · obtain ⟨notes, hrun⟩ := run_apply hm ep.before
    rw [Replayer.episode_eq hrun] at heq
    have hreport : (event r ep.event m ep.before).1 = report := by
      rw [heq] at hresult
      exact Except.ok.inj hresult
    obtain ⟨is, hcalls, i, hi, hwriting⟩ := writing_of_succeeded (hreport ▸ hok)
    have hrecorded : recorded ep = is := recorded_eq (by rw [heq]; exact hcalls)
    have hmem : r.stamp ep.event.author m ∈ (recorded ep).filterMap (·.stamp?) := by
      refine List.mem_filterMap.2 ⟨i, hrecorded ▸ hi, ?_⟩
      unfold Invocation.stamp?
      rw [hwriting, stamp?_writing]
    exact List.ne_nil_of_mem (List.mem_map_of_mem hmem)

/-- Events that have their moments are replayed to their end on a recorder. -/
theorem replay_ends (h : ∀ e ∈ es, ∃ m, r.anchor.resolve e.time = .ok m) (t : Recorder) :
    ∃ total, (r.replay es t).result = .ok total := by
  refine Replayer.result_of_reported (P := fun _ => True) trivial fun e he t _ => ?_
  obtain ⟨m, hm⟩ := h e he
  obtain ⟨notes, hrun⟩ := run_apply hm t
  exact ⟨_, _, hrun, trivial⟩

end Recorder

end Episodes

namespace Plan

variable {p q : Plan} {place : Nat} {e : Event} {m : Moment} {line line' : String}

/-- **The moment of an event is its date.** -/
theorem dates_of_resolve (hall : ∀ d ∈ p.events, ∃ m, p.anchor.resolve d.time = .ok m)
    (he : p.events[place]? = some e) (hm : p.anchor.resolve e.time = .ok m) :
    p.Dates place e m.text := by
  refine ⟨?reported, ?reached, ?rehearsed, ?git, ?recorder⟩
  case reported =>
    intro σ _ r tool hr d report hreport
    obtain ⟨hevent, hmoment⟩ := Replayer.reported_of_place he (hr ▸ hm) hreport
    exact ⟨hevent, congrArg Moment.text hmoment⟩
  case reached =>
    intro σ _ r tool _ total htotal
    exact Replayer.report_of_result he htotal
  case rehearsed =>
    intro r t hr
    exact Recorder.replay_ends (hr ▸ hall) t
  case git =>
    intro r g hr ep hep
    obtain rfl : ep.event = e := Replayer.eq_of_place (r.episodes_events p.events g) hep he
    exact ⟨rfl, Git.dated_of_mem (List.mem_of_getElem? hep) (hr ▸ hm)⟩
  case recorder =>
    intro r t hr ep hep
    obtain rfl : ep.event = e := Replayer.eq_of_place (r.episodes_events p.events t) hep he
    exact ⟨rfl, Recorder.dated_of_mem (List.mem_of_getElem? hep) (hr ▸ hm)⟩

/-- An event has one date: a rehearsal reports it. -/
theorem Dates.unique (h : p.Dates place e line) (h' : p.Dates place e line') : line = line' := by
  obtain ⟨total, htotal⟩ := h.rehearsed p.replayer {} rfl
  obtain ⟨report, hreport⟩ := h.reached p.replayer ({} : Recorder) rfl total htotal
  have hline : report.timestamp.text = line := (h.reported p.replayer _ rfl e report hreport).2
  have hline' : report.timestamp.text = line' := (h'.reported p.replayer _ rfl e report hreport).2
  exact hline.symm.trans hline'

end Plan

/-! ## One more event -/

/-- A plan with one more event, behind the first `k` or behind all if these are fewer. -/
def PlanSpec.withEvent (spec : PlanSpec) (k : Nat) (e : EventSpec) : PlanSpec :=
  { spec with events := spec.events.take k ++ e :: spec.events.drop k }

namespace Plan

variable {spec : PlanSpec} {p q : Plan} {k : Nat} {e : EventSpec}

theorem mem_withEvent {d : EventSpec} :
    d ∈ (spec.withEvent k e).events ↔ d = e ∨ d ∈ spec.events := by
  have hsplit : d ∈ spec.events ↔ d ∈ spec.events.take k ∨ d ∈ spec.events.drop k := by
    rw [← List.mem_append, List.take_append_drop]
  unfold PlanSpec.withEvent
  rw [hsplit, List.mem_append, List.mem_cons]
  exact or_left_comm

/-- **A plan takes one more event if and only if it is valid from the anchor of the plan.** -/
theorem ofSpec_withEvent (h : ofSpec spec = .ok p) :
    (∃ q, ofSpec (spec.withEvent k e) = .ok q) ↔ e.Valid p.anchor := by
  obtain ⟨hanchor, hheader, hevents, -⟩ := ofSpec_ok.1 h
  constructor
  · rintro ⟨q, hq⟩
    obtain ⟨hanchor', -, hevents', -⟩ := ofSpec_ok.1 hq
    have hsame : p.anchor = q.anchor := Except.ok.inj (hanchor.symm.trans hanchor')
    rw [hsame]
    exact hevents' e (mem_withEvent.2 (.inl rfl))
  · intro he
    refine ⟨⟨p.anchor, spec.authors, spec.exclude, (spec.withEvent k e).events.map EventSpec.entry⟩,
      ofSpec_ok.2 ⟨hanchor, ⟨hheader.first, hheader.second, hheader.exclude⟩, fun d hd => ?_,
        rfl, rfl, rfl⟩⟩
    rcases mem_withEvent.1 hd with rfl | hd
    · exact he
    · exact hevents d hd

/-- The event that was put in has its date from the anchor that both plans have. -/
theorem dates_withEvent {m : Moment} (hp : ofSpec spec = .ok p)
    (hq : ofSpec (spec.withEvent k e) = .ok q) (hm : p.anchor.resolve e.time = .ok m) :
    q.Dates (min k spec.events.length) e.entry.event m.text := by
  obtain ⟨hanchor, -⟩ := ofSpec_ok.1 hp
  obtain ⟨hanchor', -, hevents, -, -, hentries⟩ := ofSpec_ok.1 hq
  have hsame : p.anchor = q.anchor := Except.ok.inj (hanchor.symm.trans hanchor')
  have hlist : q.events = (spec.withEvent k e).events.map (·.entry.event) := by
    unfold Plan.events
    rw [hentries, List.map_map]
    rfl
  refine dates_of_resolve (fun d hd => ?_) ?_ (hsame ▸ hm)
  · rw [hlist] at hd
    obtain ⟨written, hwritten, rfl⟩ := List.mem_map.1 hd
    exact (hevents written hwritten).moment
  · have hplace : (spec.withEvent k e).events[min k spec.events.length]? = some e := by
      have hlength : (spec.events.take k).length = min k spec.events.length := List.length_take
      unfold PlanSpec.withEvent
      rw [← hlength]
      simp
    rw [hlist, List.getElem?_map, hplace, Option.map_some]

end Plan

/-! ## The arguments -/

namespace Arguments

/-- A number does not begin as an option does, nor with a sign. -/
theorem toDigits_eq_cons (n : Nat) :
    ∃ d ds, Nat.toDigits 10 n = d :: ds ∧ d ≠ '-' ∧ d ≠ '+' := by
  obtain ⟨d, ds, hds⟩ := List.exists_cons_of_ne_nil (Nat.toDigits_ne_nil (b := 10) (n := n))
  have hdigit : d.isDigit = true :=
    Nat.isDigit_of_mem_toDigits (by decide) (by decide) (hds ▸ List.mem_cons_self)
  refine ⟨d, ds, hds, ?_, ?_⟩
  · rintro rfl
    exact absurd hdigit (by decide)
  · rintro rfl
    exact absurd hdigit (by decide)

theorem shape_repr (n : Nat) : shape n.repr = .word := by
  obtain ⟨d, ds, hds, hminus, -⟩ := toDigits_eq_cons n
  unfold shape
  rw [Nat.toList_repr, hds]
  split
  · next h => exact absurd (List.cons.inj h).1 hminus
  · next h => exact absurd (List.cons.inj h).1 hminus
  · next h => exact absurd (List.cons.inj h).1 hminus
  · rfl

theorem number?_repr {n limit : Nat} (h : n ≤ limit) : number? limit n.repr = some n := by
  obtain ⟨d, ds, hds, hminus, hplus⟩ := toDigits_eq_cons n
  have hall : (Nat.toDigits 10 n).all Char.isDigit = true :=
    List.all_eq_true.2 fun c hc => Nat.isDigit_of_mem_toDigits (by decide) (by decide) hc
  have hvalue : Nat.ofDigitChars 10 (Nat.toDigits 10 n) 0 = n := Nat.ofDigitChars_ten_toDigits
  rw [hds] at hall hvalue
  unfold number?
  rw [Nat.toList_repr, hds]
  simp [hminus, hplus, hall, hvalue, h]

end Arguments

open Arguments in
/-- **Every time can be asked about**: day, hour and minute are taken as they are spelled, whether or
not they are on the clock. -/
theorem Request.parse_when {path : String} (hword : shape path = .word) (hpath : path ≠ "")
    (t : EventTime) :
    parse ["when", path, "--day", t.day.toNat.repr, "--hour", t.hour.toNat.repr,
      "--minute", t.minute.toNat.repr] = some (.command (.when path t)) := by
  have hday : number? maxWord32 t.day.toNat.repr = some t.day.toNat := by
    have hlt : t.day.toNat < 4294967296 := t.day.toNat_lt
    exact number?_repr (by unfold maxWord32; omega)
  have hhour : number? maxWord8 t.hour.toNat.repr = some t.hour.toNat := by
    have hlt : t.hour.toNat < 256 := t.hour.toNat_lt
    exact number?_repr (by unfold maxWord8; omega)
  have hminute : number? maxWord8 t.minute.toNat.repr = some t.minute.toNat := by
    have hlt : t.minute.toNat < 256 := t.minute.toNat_lt
    exact number?_repr (by unfold maxWord8; omega)
  have hempty : path.isEmpty = false := by simpa using hpath
  have hwhen : shape "when" = .word := by decide
  have hdays : shape "--day" = .long "day" none := by decide
  have hhours : shape "--hour" = .long "hour" none := by decide
  have hminutes : shape "--minute" = .long "minute" none := by decide
  -- the scan goes through the options one by one, each with its value
  simp [parse, hwhen, command?, scan, hword, hdays, hhours, hminutes, shape_repr, Given.addPlan,
    Given.addValue, hempty, hday, hhour, hminute, Given.number, List.lookup_cons]

/-! ## The command -/

/-- A command ends well if nothing ends it early. -/
theorem Progress.exit_answer {done : Progress} {log : Bool} {error : Option CommandError} :
    (done.answer log error).exit = 0 ↔ error = none := by
  cases error <;> simp [Progress.answer]

namespace Setting

variable {s : Setting} {path : String} {t : EventTime}

/-- What the file that a path leads to says, before it is checked. -/
def Spells (s : Setting) (path : String) (spec : PlanSpec) : Prop :=
  ∃ text, s.files.read s.directory path = .ok text ∧ Plan.readSpec text = .ok spec

theorem load_ok {p : Plan} :
    Plan.load s.files s.directory path = .ok p ↔
      ∃ spec, s.Spells path spec ∧ Plan.ofSpec spec = .ok p := by
  constructor
  · intro h
    obtain ⟨text, hread, hparse⟩ := Plan.parse_of_load h
    obtain ⟨spec, hspec, hp⟩ := Plan.parse_ok.1 hparse
    exact ⟨spec, ⟨text, hread, hspec⟩, hp⟩
  · rintro ⟨spec, ⟨text, hread, hspec⟩, hp⟩
    exact Plan.load_of_parse hread (Plan.parse_ok.2 ⟨spec, hspec, hp⟩)

/-- **A command ends well if the time is on the clock and the plan gives it a moment**, and then it
shows this moment. -/
theorem when_ends {done : Progress} :
    s.when path t = (done, none) ↔
      (t.hour ≤ 23 ∧ t.minute ≤ 59) ∧ ∃ p m, Plan.load s.files s.directory path = .ok p ∧
        p.anchor.resolve t = .ok m ∧ done = { stdout := m.text ++ "\n" } := by
  unfold Setting.when
  by_cases hclock : 23 < t.hour ∨ 59 < t.minute
  · have hoff : ¬ (t.hour ≤ 23 ∧ t.minute ≤ 59) := by
      rw [← UInt8.not_lt, ← UInt8.not_lt]
      exact fun h => hclock.elim h.1 h.2
    simp [hclock, hoff]
  have hon : t.hour ≤ 23 ∧ t.minute ≤ 59 := by
    rw [← UInt8.not_lt, ← UInt8.not_lt]
    exact not_or.1 hclock
  rw [if_neg hclock, and_iff_right hon]
  cases hload : Plan.load s.files s.directory path with
  | error why => simp
  | ok p =>
    cases hm : p.anchor.resolve t with
    | error why => simp [hm]
    | ok m => simp [hm, eq_comm]

/-- What ends well is shown to the end of the line. -/
theorem when_shows {args : List String}
    (hargs : Request.parse args = some (.command (.when path t))) :
    ((answer s args).exit = 0 → ∃ line, (answer s args).stdout = line ++ "\n") ∧
    ∀ line, (answer s args).exit = 0 ∧ (answer s args).stdout = line ++ "\n" ↔
      (t.hour ≤ 23 ∧ t.minute ≤ 59) ∧ ∃ p m, Plan.load s.files s.directory path = .ok p ∧
        p.anchor.resolve t = .ok m ∧ m.text = line := by
  have hrun : s.run (.when path t) = s.when path t := rfl
  rw [answer_command hargs, hrun, Progress.exit_answer]
  rcases hwhen : s.when path t with ⟨done, error⟩
  refine ⟨?_, fun line => ⟨?_, ?_⟩⟩
  · rintro rfl
    obtain ⟨-, p, m, -, -, rfl⟩ := when_ends.1 hwhen
    exact ⟨m.text, rfl⟩
  · rintro ⟨rfl, hline⟩
    obtain ⟨hclock, p, m, hload, hm, rfl⟩ := when_ends.1 hwhen
    exact ⟨hclock, p, m, hload, hm, (String.append_left_inj _).1 hline⟩
  · rintro ⟨hclock, p, m, hload, hm, rfl⟩
    have hends := when_ends.2 ⟨hclock, p, m, hload, hm, rfl⟩
    obtain ⟨rfl, rfl⟩ := Prod.mk.inj (hwhen.symm.trans hends)
    exact ⟨rfl, rfl⟩

/-- A line is shown if and only if it is the date of an event at this time in the plan that has it,
and this plan is accepted. -/
theorem shows_iff_dates {args : List String} {e : EventSpec}
    (hargs : Request.parse args = some (.command (.when path e.time))) (haction : e.action.Valid)
    (k : Nat) (line : String) :
    (answer s args).exit = 0 ∧ (answer s args).stdout = line ++ "\n" ↔
      ∃ spec p q, s.Spells path spec ∧ Plan.ofSpec spec = .ok p ∧
        Plan.ofSpec (spec.withEvent k e) = .ok q ∧
        q.Dates (min k spec.events.length) e.entry.event line := by
  rw [(when_shows hargs).2 line]
  constructor
  · rintro ⟨⟨hhour, hminute⟩, p, m, hload, hm, rfl⟩
    obtain ⟨spec, hspells, hp⟩ := load_ok.1 hload
    obtain ⟨q, hq⟩ := (Plan.ofSpec_withEvent (k := k) hp).2 ⟨hhour, hminute, haction, m, hm⟩
    exact ⟨spec, p, q, hspells, hp, hq, Plan.dates_withEvent hp hq hm⟩
  · rintro ⟨spec, p, q, hspells, hp, hq, hdates⟩
    obtain ⟨hhour, hminute, -, m, hm⟩ := (Plan.ofSpec_withEvent hp).1 ⟨q, hq⟩
    have hline : m.text = line := (Plan.dates_withEvent hp hq hm).unique hdates
    exact ⟨⟨hhour, hminute⟩, p, m, load_ok.2 ⟨spec, hspells, hp⟩, hm, hline⟩

end Setting

/-- **`when` tells the date of an event before there is one.** Take any event at the time that is
asked about, valid but for its time, and put it anywhere into the plan. The command ends well if and
only if the plan is accepted without the event and with it; and it ends well and shows a line if and
only if, besides, this line is the date of the event in every replay of the plan that has it. -/
theorem when_tells_date (s : Setting) {args : List String} {path : String} {t : EventTime}
    (hargs : Request.parse args = some (.command (.when path t))) (e : EventSpec)
    (htime : e.time = t) (haction : e.action.Valid) (k : Nat) :
    ((answer s args).exit = 0 ↔
      ∃ spec p q, s.Spells path spec ∧ Plan.ofSpec spec = .ok p ∧
        Plan.ofSpec (spec.withEvent k e) = .ok q) ∧
    ∀ line, (answer s args).exit = 0 ∧ (answer s args).stdout = line ++ "\n" ↔
      ∃ spec p q, s.Spells path spec ∧ Plan.ofSpec spec = .ok p ∧
        Plan.ofSpec (spec.withEvent k e) = .ok q ∧
        q.Dates (min k spec.events.length) e.entry.event line := by
  subst htime
  have hlines := Setting.shows_iff_dates (s := s) hargs haction k
  refine ⟨⟨fun hexit => ?_, ?_⟩, hlines⟩
  · obtain ⟨line, hline⟩ := (Setting.when_shows hargs).1 hexit
    obtain ⟨spec, p, q, hspells, hp, hq, -⟩ := (hlines line).1 ⟨hexit, hline⟩
    exact ⟨spec, p, q, hspells, hp, hq⟩
  · rintro ⟨spec, p, q, hspells, hp, hq⟩
    obtain ⟨m, hm⟩ := ((Plan.ofSpec_withEvent hp).1 ⟨q, hq⟩).moment
    have hdates := Plan.dates_withEvent hp hq hm
    exact ((hlines m.text).2 ⟨spec, p, q, hspells, hp, hq, hdates⟩).1

set_option maxRecDepth 20000 in
/-- A deletion that is put before the only event of a plan, at the last minute of a day. -/
theorem deletion_foretold :
    let text := "[anchor]\nstart = \"2025-10-18T09:00:00\"\n" ++
      "[authors.first]\nname = \"Ada\"\nemail = \"a@x\"\n" ++
      "[authors.second]\nname = \"Grace\"\nemail = \"g@x\"\n" ++
      "[[events]]\nkind = \"change\"\nbranch = \"main\"\nauthor = \"first\"\n" ++
      "day = 0\nhour = 9\nmessage = \"start\"\n"
    let s : Setting := ⟨.directory [("work", .directory [("plan.toml", .file (Text.encode text))])],
      "/work", true, [], false, false⟩
    let args := ["when", "plan.toml", "--day", "13", "--hour", "23", "--minute", "59"]
    let e : EventSpec := ⟨none, .second, ⟨13, 23, 59⟩, .deletion "main" "less" ["a"]⟩
    (answer s args).stdout = "2025-10-31 23:59:00\n" ∧
      ∃ spec p q, s.Spells "plan.toml" spec ∧ Plan.ofSpec spec = .ok p ∧
        Plan.ofSpec (spec.withEvent 0 e) = .ok q ∧
        q.Dates (min 0 spec.events.length) e.entry.event "2025-10-31 23:59:00" := by
  intro text s args e
  let p : Plan := ⟨⟨⟨2025, 10, 18, by decide⟩, ⟨9, 0, 0, by decide, by decide, by decide⟩⟩,
    ⟨⟨"Ada", "a@x"⟩, ⟨"Grace", "g@x"⟩⟩, [],
    [⟨none, ⟨"main", .first, ⟨0, 9, 0⟩, .change "start" .nothing⟩⟩]⟩
  have hchars : ∃ cs, text.toList = cs ∧ Plan.ofChars cs = some p := by
    refine ⟨?cs, ?hcs, ?hp⟩
    case hcs =>
      simp only [text, String.toList_append, String.reduceToList, List.cons_append, List.nil_append]
      exact rfl
    case hp => decide +kernel
  obtain ⟨cs, hcs, hp⟩ := hchars
  clear_value text
  have haccess (content : List UInt8) :
      (FileTree.directory [("work", .directory [("plan.toml", .file content)])]).access
        "/work" "plan.toml" = .ok (.file content) := rfl
  have hread : s.files.read s.directory "plan.toml" = .ok text :=
    FileTree.read_encode (haccess _)
  have hload := Plan.load_of_parse hread (Plan.parse_of_chars hcs hp)
  have hargs : Request.parse args = some (.command (.when "plan.toml" ⟨13, 23, 59⟩)) :=
    Request.parse_when (by decide) (by decide) ⟨13, 23, 59⟩
  have hm : p.anchor.resolve ⟨13, 23, 59⟩ =
      .ok ⟨⟨2025, 10, 31, by decide⟩, ⟨23, 59, 0, by decide, by decide, by decide⟩⟩ :=
    Anchor.resolve_eq_ok.2 (by decide +kernel)
  have hshown := ((Setting.when_shows hargs).2 "2025-10-31 23:59:00").2
    ⟨by decide, p, _, hload, hm, by decide +kernel⟩
  have haction : e.action.Valid := by
    refine ⟨⟨'m', by decide, by decide⟩, ⟨'l', by decide, by decide⟩, by decide, fun path hpath => ?_⟩
    obtain rfl := List.mem_singleton.1 hpath
    exact ⟨⟨'a', by decide, by decide⟩, by decide⟩
  exact ⟨hshown.2, ((when_tells_date s hargs e rfl haction 0).2 _).1 hshown⟩

end Backdate
