import Backdate.Proofs.Completion
import Backdate.Proofs.StandIn
import Backdate.Proofs.Totals

/-!
# Failures and faults

A failure is reported and the replay goes on; a fault ends it on the spot.

* `Reported`: events that were applied in turn and all came to a report, with the
  tool at either end;
* `EndsCleanly`: a replay that has got so far has these reports, and either has no
  event left or has met the fault of the next one; the tool is as it was then, so
  no later event has touched it;
* `faults_end_replays`: every replay ends so, and the only faults are a time
  without a moment, which leaves the tool as it was, and a process that does not
  start. What git replies is never one.
-/

namespace Backdate

open Calendar

variable {σ : Type} [Tool σ] {r : Replayer} {e : Event} {es : List Event} {s t u : σ}
  {done : List (Event × Report)}

namespace Replayer

/-- Events were applied in turn, from one state of the tool to another, and each was reported. -/
inductive Reported (r : Replayer) : σ → List (Event × Report) → σ → Prop
  | nil (s : σ) : Reported r s [] s
  | cons {s t u : σ} {e : Event} {report : Report} {done : List (Event × Report)}
      (h : (r.apply e).run s = (.ok report, t)) (hrest : Reported r t done u) :
    Reported r s ((e, report) :: done) u

/-- A replay goes on from where the events that were reported left the tool. -/
theorem Reported.replayOnto (h : r.Reported s done t) (sm : Summary) (es : List Event) :
    r.replayOnto sm (done.map (·.1) ++ es) s =
      let rest := r.replayOnto ((done.map (·.2)).foldl Summary.record sm) es t
      { rest with reports := done ++ rest.reports } := by
  induction h generalizing sm with
  | nil s => rfl
  | cons hap _ ih =>
    rw [List.map_cons, List.cons_append, replayOnto_cons_ok hap, ih]
    rfl

/-- All events are reported, or there is a first one that faults. -/
theorem reported_or_fault (r : Replayer) (es : List Event) (s : σ) :
    (∃ done t, r.Reported s done t ∧ done.map (·.1) = es) ∨
      ∃ done t e after why u, r.Reported s done t ∧ es = done.map (·.1) ++ e :: after ∧
        (r.apply e).run t = (.error why, u) := by
  induction es generalizing s with
  | nil => exact .inl ⟨[], s, .nil s, rfl⟩
  | cons e es ih =>
    rcases hap : (r.apply e).run s with ⟨why | report, t⟩
    · exact .inr ⟨[], s, e, es, why, t, .nil s, rfl, hap⟩
    · rcases ih t with ⟨done, u, hdone, hes⟩ | ⟨done, u, d, after, why, v, hdone, hes, hfault⟩
      · exact .inl ⟨(e, report) :: done, u, .cons hap hdone, by rw [List.map_cons, hes]⟩
      · refine .inr ⟨(e, report) :: done, u, d, after, why, v, .cons hap hdone, ?_, hfault⟩
        rw [hes, List.map_cons, List.cons_append]

/-- **How a replay ends.** Either every event comes to a report or there is a first one that
faults. In the one case the replay ends with the summary of all reports. In the other it ends in
that fault, with the reports of the events before and with the tool as the fault left it. -/
structure EndsCleanly (r : Replayer) (es : List Event) (s : σ) : Prop where
  decided : (∃ done t, r.Reported s done t ∧ done.map (·.1) = es) ∨
    ∃ done t e after why u, r.Reported s done t ∧ es = done.map (·.1) ++ e :: after ∧
      (r.apply e).run t = (.error why, u)
  completed : ∀ done t, r.Reported s done t → done.map (·.1) = es →
    r.replay es s = ⟨done, .ok (Summary.ofReports (done.map (·.2))), t⟩
  stopped : ∀ done t e after why u, r.Reported s done t → es = done.map (·.1) ++ e :: after →
    (r.apply e).run t = (.error why, u) → r.replay es s = ⟨done, .error why, u⟩

theorem endsCleanly (r : Replayer) (es : List Event) (s : σ) : r.EndsCleanly es s where
  decided := r.reported_or_fault es s
  completed := by
    rintro done t hdone rfl
    have hrun := hdone.replayOnto {} []
    rw [List.append_nil] at hrun
    rw [replay, hrun]
    simp only [Replayer.replayOnto, List.append_nil]
    rfl
  stopped := by
    rintro done t e after why u hdone rfl hfault
    rw [replay, hdone.replayOnto {} (e :: after), replayOnto_cons_error hfault]
    simp only [List.append_nil]

end Replayer

/-- On a recorder only a time without a moment is a fault. -/
theorem Recorder.apply_fault {t t' : Recorder} {why : Fault}
    (h : (r.apply e).run t = (.error why, t')) :
    ∃ u, r.anchor.resolve e.time = .error u ∧ why = .unresolved u ∧ t' = t := by
  cases hm : r.anchor.resolve e.time with
  | error u =>
    rw [Replayer.apply_unresolved hm] at h
    cases h; exact ⟨u, rfl, rfl, rfl⟩
  | ok m =>
    obtain ⟨report, t₁, -, hrun, -⟩ := Git.records_apply hm t
    rw [hrun] at h; cases h

/-- On git a fault is a time without a moment, or a call that does not start. -/
theorem Git.apply_fault {g g' : Git} {why : Fault} (h : (r.apply e).run g = (.error why, g')) :
    (∃ u, r.anchor.resolve e.time = .error u ∧ why = .unresolved u ∧ g' = g) ∨
      ∃ m, r.anchor.resolve e.time = .ok m ∧
        ∃ c ∈ (r.operations e m).flatMap calls, NotStarted g c why := by
  cases hm : r.anchor.resolve e.time with
  | error u =>
    rw [Replayer.apply_unresolved hm] at h
    cases h; exact .inl ⟨u, rfl, rfl, rfl⟩
  | ok m =>
    obtain ⟨ps, hdoes⟩ := (logs_apply r e).does g
    rw [h] at hdoes
    rcases (does_apply hdoes).fault with ⟨u, hu, -⟩ | ⟨m', hm', hcall⟩
    · cases hm.symm.trans hu
    · cases hm.symm.trans hm'
      exact .inr ⟨m, rfl, hcall⟩

/-- **Faults end a replay, and failures do not.** Whatever the events and the tool, a replay ends
cleanly. An event without a moment faults and leaves the tool as it was; on a recorder nothing
else faults, and on git nothing else but a call of the event that does not start. Whether a call
starts is a matter of its texts and of the working directory: if these are in order, an event with
a moment is reported, whatever git replies. -/
theorem faults_end_replays (r : Replayer) :
    (∀ (σ : Type) [Tool σ] (es : List Event) (s : σ), r.EndsCleanly es s) ∧
    (∀ (σ : Type) [Tool σ] (e : Event) (s : σ) (why : Anchor.Unresolved),
      r.anchor.resolve e.time = .error why → (r.apply e).run s = (.error (.unresolved why), s)) ∧
    (∀ (e : Event) (t t' : Recorder) (why : Fault), (r.apply e).run t = (.error why, t') →
      ∃ u, r.anchor.resolve e.time = .error u ∧ why = .unresolved u ∧ t' = t) ∧
    (∀ (e : Event) (g g' : Git) (why : Fault), (r.apply e).run g = (.error why, g') →
      (∃ u, r.anchor.resolve e.time = .error u ∧ why = .unresolved u ∧ g' = g) ∨
        ∃ m, r.anchor.resolve e.time = .ok m ∧
          ∃ c ∈ (r.operations e m).flatMap Git.calls, Git.NotStarted g c why) ∧
    ∀ (e : Event) (g : Git), (∃ m, r.anchor.resolve e.time = .ok m) → g.blocked = none →
      (∀ text ∈ r.texts e, Text.hasNul text = false) →
      ∃ report g', (r.apply e).run g = (.ok report, g') := by
  refine ⟨fun _ _ es s => r.endsCleanly es s, fun _ _ _ s _ hm => Replayer.apply_unresolved hm s,
    fun _ _ _ _ h => Recorder.apply_fault h, fun _ _ _ _ h => Git.apply_fault h, ?_⟩
  rintro e g ⟨m, hm⟩ hb hnul
  have hnone : (r.texts e).any Text.hasNul = false :=
    List.any_eq_false.2 fun text htext => by rw [hnul text htext]; simp
  obtain ⟨report, g', hrun, -⟩ := Git.apply_reports hm hnone hb
  exact ⟨report, g', hrun⟩

end Backdate
