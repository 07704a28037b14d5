import Backdate.Proofs.Attribution

/-!
# Events on a recorder

A recorder never faults on an operation, so what it makes of an event can be
said outright, operation after operation (`Recorder.event`, `run_apply`). Events
can also be applied whether or not those before them came to a report: `attempts`
is such a run, and a replay is the first part of one (`episodes_prefix_attempts`).
-/

namespace Backdate

open Calendar

/-! ## Events one by one -/

namespace Replayer

variable {σ : Type} [Tool σ] {r : Replayer} {e : Event} {s : σ}

/-- Events applied one by one, also after a fault. -/
def attempts (r : Replayer) : List Event → σ → List (Episode σ)
  | [], _ => []
  | e :: es, s => r.episode e s :: r.attempts es (r.episode e s).after

/-- The tool after events were applied one by one. -/
def afterAll (r : Replayer) (es : List Event) (s : σ) : σ :=
  es.foldl (fun s e => (r.episode e s).after) s

theorem attempts_events (r : Replayer) (es : List Event) (s : σ) :
    (r.attempts es s).map (·.event) = es := by
  induction es generalizing s with
  | nil => rfl
  | cons e es ih => rw [attempts, List.map_cons, ih]; rfl

/-- A replay is the first part of such a run, up to the fault that ends it. -/
theorem episodes_prefix_attempts (r : Replayer) (es : List Event) (s : σ) :
    r.episodes es s <+: r.attempts es s := by
  induction es generalizing s with
  | nil => exact List.nil_prefix
  | cons e es ih =>
    rw [episodes, attempts, List.prefix_cons_inj]
    split
    · exact ih _
    · exact List.nil_prefix

/-- What every event keeps holds before and after each of them. -/
theorem attempts_of_kept {P : σ → Prop} {es : List Event} (hs : P s)
    (hkept : ∀ e s, P s → P (r.episode e s).after) :
    ∀ ep ∈ r.attempts es s, ep = r.episode ep.event ep.before ∧ P ep.before ∧ P ep.after := by
  induction es generalizing s with
  | nil => intro ep h; exact absurd h List.not_mem_nil
  | cons e es ih =>
    intro ep h
    have hnext := hkept e s hs
    rcases List.mem_cons.1 h with rfl | h
    · exact ⟨rfl, hs, hnext⟩
    · exact ih hnext ep h

/-- What events only ever add to is, in the end, what each of them added, in order. -/
theorem afterAll_log {α : Type} (log : σ → List α)
    (hlog : ∀ e s, log s <+: log (r.episode e s).after) (es : List Event) (s : σ) :
    log (r.afterAll es s) =
      log s ++ (r.attempts es s).flatMap fun ep => (log ep.after).drop (log ep.before).length := by
  induction es generalizing s with
  | nil => exact (List.append_nil _).symm
  | cons e es ih =>
    obtain ⟨added, hadded⟩ := hlog e s
    have hnew : (log (r.episode e s).after).drop (log (r.episode e s).before).length = added := by
      rw [← hadded]; exact List.drop_left
    rw [attempts, List.flatMap_cons, hnew, ← List.append_assoc, hadded]
    exact ih (r.episode e s).after

end Replayer

/-! ## One event -/

namespace Recorder

variable {t : Recorder} {r : Replayer} {e : Event} {m : Moment}

/-- Operations in turn, with a line for each that failed. -/
def steps (t : Recorder) : List Operation → List String × Recorder
  | [] => ([], t)
  | op :: ops =>
    let done := t.step op
    let rest := done.2.steps ops
    (done.1.describe.toList ++ rest.1, rest.2)

theorem run_performAll (ops : List Operation) (t : Recorder) :
    (Operation.performAll ops : Act Recorder (List String)).run t =
      (.ok (t.steps ops).1, (t.steps ops).2) := by
  induction ops generalizing t with
  | nil => rfl
  | cons op ops ih =>
    rw [Operation.performAll, Act.run_bind, run_perform]
    simp only [Act.run_bind, ih]
    rfl

/-- An event at its moment: the report on it, and the recorder after its operations. -/
def event (r : Replayer) (e : Event) (m : Moment) (t : Recorder) : Report × Recorder :=
  let switched := t.switch e.branch
  if switched.1.isSuccess then
    let prepared := switched.2.steps (r.preparations e)
    let written := prepared.2.step (e.writing (r.stamp e.author m))
    (e.report m written.1 prepared.1, written.2)
  else (e.report m switched.1 [], switched.2)

theorem run_noted (report : Report) (t : Recorder) :
    ∃ notes, (Replayer.noted report).run t = (.ok report, { t with notes := notes }) := by
  unfold Replayer.noted
  cases report.outcome.describe with
  | none => exact ⟨t.notes, rfl⟩
  | some line => exact ⟨_, rfl⟩

/-- **What a recorder makes of an event**, save for the note that it keeps of a failure. -/
theorem run_apply (hm : r.anchor.resolve e.time = .ok m) (t : Recorder) :
    ∃ notes, (r.apply e).run t =
      (.ok (event r e m t).1, { (event r e m t).2 with notes := notes }) := by
  have hswitched : ((Operation.switch e.branch).perform : Act Recorder Outcome).run t =
      (.ok (t.switch e.branch).1, (t.switch e.branch).2) := run_perform _ t
  have hperform : (r.perform e).run t = (.ok (event r e m t).1, (event r e m t).2) := by
    rw [Replayer.perform_eq, Replayer.resolve_eq hm, pure_bind, Act.run_bind, hswitched]
    unfold event
    by_cases hok : (t.switch e.branch).1.isSuccess = true
    · simp only [if_pos hok, Replayer.onBranch, Act.run_bind, run_performAll, run_perform]
      rfl
    · simp only [if_neg hok]
      rfl
  obtain ⟨notes, hnoted⟩ := run_noted (event r e m t).1 (event r e m t).2
  exact ⟨notes, by rw [Replayer.apply_eq, Act.run_bind, hperform]; exact hnoted⟩

/-- Operations in turn are recorded in turn. -/
theorem steps_calls (t : Recorder) (ops : List Operation) :
    ∃ is, (t.steps ops).2.calls = t.calls ++ is ∧ is.map (·.operation) = ops := by
  induction ops generalizing t with
  | nil => exact ⟨[], (List.append_nil _).symm, rfl⟩
  | cons op ops ih =>
    obtain ⟨is, hcalls, his⟩ := ih (t.step op).2
    refine ⟨t.invocation op :: is, ?_, by rw [List.map_cons, his, operation_invocation]⟩
    rw [steps, hcalls, (t.step_records op).1, List.append_assoc]
    rfl

theorem recorded_eq {ep : Episode Recorder} {is : List Invocation}
    (h : ep.after.calls = ep.before.calls ++ is) : recorded ep = is := by
  unfold recorded
  rw [h]; exact List.drop_left

/-- What an event does to a recorder is told by `event`, or is nothing. -/
theorem episode_cases (r : Replayer) (e : Event) (t : Recorder) :
    (∃ why, r.anchor.resolve e.time = .error why ∧ (r.episode e t).after = t) ∨
      ∃ m notes, r.anchor.resolve e.time = .ok m ∧
        (r.episode e t).after = { (event r e m t).2 with notes := notes } := by
  cases hm : r.anchor.resolve e.time with
  | error why =>
    refine .inl ⟨why, rfl, ?_⟩
    rw [Replayer.episode_eq (Replayer.apply_unresolved hm t)]
  | ok m =>
    obtain ⟨notes, hrun⟩ := run_apply hm t
    refine .inr ⟨m, notes, rfl, ?_⟩
    rw [Replayer.episode_eq hrun]

end Recorder

end Backdate
