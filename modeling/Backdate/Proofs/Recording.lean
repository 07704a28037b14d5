import Backdate.Recorder
import Backdate.Proofs.Conversations

/-!
# What a recording foretells

A recorder knows enough of a repository to say how git would answer. From the
state that it has at an operation come the verdicts on the calls of git that the
operation stands for (`Recorder.answers`), and from the invocations of a run come
those of the whole run (`Recorder.verdicts`). The calls themselves are spelled
out by `Invocation.expansion`.
-/

namespace Backdate

namespace Invocation

/-- The operation that was recorded. -/
def operation : Invocation → Operation
  | .switch branch _ => .switch branch
  | .stage paths => .stage paths
  | .stageAllExcept excluded => .stageAllExcept excluded
  | .remove path => .remove path
  | .commit message stamp allowEmpty _ => .commit message stamp allowEmpty
  | .merge source message stamp => .merge source message stamp
  | .tag name message stamp => .tag name message stamp

/-- The calls of git that an invocation stands for: a new branch is looked for before it is
created, paths are staged one by one, and excluded paths are taken out one by one. -/
def expansion : Invocation → List Call
  | .switch branch created =>
    .checkout branch :: if created then [.verify branch, .create branch] else []
  | .stage paths => paths.map .add
  | .stageAllExcept excluded => .addAll :: excluded.map .reset
  | .remove path => [.remove path]
  | .commit message stamp allowEmpty _ => [.commit message stamp allowEmpty]
  | .merge source message stamp => [.merge source message stamp]
  | .tag name message stamp => [.tag name message stamp]

end Invocation

namespace Recorder

variable {t t₁ t₂ : Recorder}

/-- An operation on a recorder, which never faults. -/
def step (t : Recorder) : Operation → Outcome × Recorder
  | .switch branch => t.switch branch
  | .stage paths => t.stage paths
  | .stageAllExcept excluded => t.stageAllExcept excluded
  | .remove path => t.remove path
  | .commit message stamp allowEmpty => t.commit message stamp allowEmpty
  | .merge source message stamp => t.merge source message stamp
  | .tag name message stamp => t.tag name message stamp

theorem run_perform (op : Operation) (t : Recorder) :
    (op.perform : Act Recorder Outcome).run t = (.ok (t.step op).1, (t.step op).2) := by
  cases op <;> rfl

/-- How an operation is recorded. -/
def invocation (t : Recorder) : Operation → Invocation
  | .switch branch => .switch branch (decide (branch ∉ t.branches))
  | .stage paths => .stage paths
  | .stageAllExcept excluded => .stageAllExcept excluded
  | .remove path => .remove path
  | .commit message stamp allowEmpty => .commit message stamp allowEmpty t.index.toList
  | .merge source message stamp => .merge source message stamp
  | .tag name message stamp => .tag name message stamp

theorem operation_invocation (t : Recorder) (op : Operation) : (t.invocation op).operation = op := by
  cases op <;> rfl

/-- **Every operation is recorded**, and no operation changes which steps fail. -/
theorem step_records (t : Recorder) (op : Operation) :
    (t.step op).2.calls = t.calls ++ [t.invocation op] ∧ (t.step op).2.failing = t.failing := by
  cases op with
  | switch branch =>
    simp only [step, switch]
    split <;> exact ⟨rfl, rfl⟩
  | stage paths =>
    simp only [step, stage]
    split <;> exact ⟨rfl, rfl⟩
  | remove path =>
    simp only [step, remove]
    split <;> exact ⟨rfl, rfl⟩
  | stageAllExcept excluded => exact ⟨rfl, rfl⟩
  | commit message stamp allowEmpty => exact ⟨rfl, rfl⟩
  | merge source message stamp => exact ⟨rfl, rfl⟩
  | tag name message stamp => exact ⟨rfl, rfl⟩

/-! ## Verdicts -/

/-- The verdicts on the calls of an operation, by what a recorder knows: a branch is there if it
is known, a path if it is present, and history is written if the recorder says so. -/
def answers (t : Recorder) : Operation → List Bool
  | .switch branch => if branch ∈ t.branches then [true] else [false, false, true]
  | .stage paths => paths.map t.hasPath
  | .stageAllExcept excluded => true :: excluded.map fun _ => true
  | .remove path => [t.hasPath path]
  | .commit message stamp allowEmpty => [(t.commit message stamp allowEmpty).1.isSuccess]
  | .merge source message stamp => [(t.merge source message stamp).1.isSuccess]
  | .tag name message stamp => [(t.tag name message stamp).1.isSuccess]

/-- The verdicts on the calls of a run, by the recorder as it is at each invocation. -/
def verdicts : Recorder → List Invocation → List Bool
  | _, [] => []
  | t, i :: is => t.answers i.operation ++ (t.step i.operation).2.verdicts is

/-- A recorder with its notes changed. -/
def mapNotes (f : List Note → List Note) (t : Recorder) : Recorder := { t with notes := f t.notes }

/-- **A recorder does not see its notes**, and does the same whatever becomes of them. -/
theorem step_mapNotes (f : List Note → List Note) (t : Recorder) (op : Operation) :
    (t.mapNotes f).step op = ((t.step op).1, (t.step op).2.mapNotes f) := by
  -- what is there does not depend on the notes, so both sides branch alike
  have hpath : (t.mapNotes f).hasPath = t.hasPath := rfl
  cases op with
  | switch branch =>
    show switch branch (t.mapNotes f) = ((switch branch t).1, (switch branch t).2.mapNotes f)
    unfold switch forced mapNotes record
    by_cases hfail : "checkout" ∈ t.failing
    · simp [hfail]
    · simp [hfail]
  | stage paths =>
    show stage paths (t.mapNotes f) = ((stage paths t).1, (stage paths t).2.mapNotes f)
    simp only [stage, hpath]
    split <;> rfl
  | remove path =>
    show remove path (t.mapNotes f) = ((remove path t).1, (remove path t).2.mapNotes f)
    have hrecord : ∀ i, ((t.mapNotes f).record i).hasPath = (t.record i).hasPath := fun _ => rfl
    simp only [remove, hrecord]
    split <;> rfl
  | stageAllExcept excluded => rfl
  | commit message stamp allowEmpty => rfl
  | merge source message stamp => rfl
  | tag name message stamp => rfl

/-- A note changes nothing of what a recorder does. -/
theorem step_note (n : Note) (t : Recorder) (op : Operation) :
    (Tool.note n t : Recorder).step op = ((t.step op).1, Tool.note n (t.step op).2) :=
  step_mapNotes (· ++ [n]) t op

theorem answers_note (n : Note) (t : Recorder) (op : Operation) :
    (Tool.note n t : Recorder).answers op = t.answers op := by
  cases op <;> rfl

theorem verdicts_note (n : Note) (t : Recorder) (is : List Invocation) :
    (Tool.note n t : Recorder).verdicts is = t.verdicts is := by
  induction is generalizing t with
  | nil => rfl
  | cons i is ih => rw [verdicts, verdicts, answers_note, step_note, ih]

/-- A recorder has gone from one state to another by way of the given invocations. -/
structure Follows (t : Recorder) (is : List Invocation) (t' : Recorder) : Prop where
  calls : t'.calls = t.calls ++ is
  failing : t'.failing = t.failing
  verdicts : ∀ js, t.verdicts (is ++ js) = t.verdicts is ++ t'.verdicts js

theorem follows_refl (t : Recorder) : Follows t [] t := ⟨by simp, rfl, fun _ => rfl⟩

theorem follows_note (n : Note) (t : Recorder) : Follows t [] (Tool.note n t) :=
  ⟨(List.append_nil _).symm, rfl, fun js => (verdicts_note n t js).symm⟩

theorem Follows.trans {is js : List Invocation} (h : Follows t is t₁) (h' : Follows t₁ js t₂) :
    Follows t (is ++ js) t₂ := by
  refine ⟨?_, h'.failing.trans h.failing, fun ks => ?_⟩
  · rw [h'.calls, h.calls, List.append_assoc]
  · rw [List.append_assoc, h.verdicts, h'.verdicts, h.verdicts, List.append_assoc]

theorem follows_step (t : Recorder) (op : Operation) :
    Follows t [t.invocation op] (t.step op).2 := by
  obtain ⟨hcalls, hfailing⟩ := t.step_records op
  refine ⟨hcalls, hfailing, fun js => ?_⟩
  simp only [List.singleton_append, verdicts, operation_invocation, List.append_nil]

theorem verdicts_invocation (t : Recorder) (op : Operation) :
    t.verdicts [t.invocation op] = t.answers op := by
  rw [verdicts, operation_invocation, verdicts, List.append_nil]

theorem Follows.unique {is js : List Invocation} (h : Follows t is t₁) (h' : Follows t js t₁) :
    is = js := by
  have hcalls := h.calls.symm.trans h'.calls
  exact List.append_cancel_left hcalls

/-- An action that ends well on every recorder, and adds to its recording. -/
def Records {β : Type} (y : Act Recorder β) : Prop :=
  ∀ t, ∃ b t' is, y.run t = (.ok b, t') ∧ Follows t is t'

theorem records_pure {β : Type} (b : β) : Records (pure b) := fun t => ⟨b, t, [], rfl, follows_refl t⟩

theorem records_perform (op : Operation) : Records op.perform :=
  fun t => ⟨_, _, _, run_perform op t, follows_step t op⟩

theorem records_note (n : Note) : Records (modify (Tool.note n)) :=
  fun t => ⟨_, _, [], rfl, follows_note n t⟩

theorem records_bind {β γ : Type} {y : Act Recorder β} {f : β → Act Recorder γ} (hy : Records y)
    (hf : ∀ b, Records (f b)) : Records (y >>= f) := by
  intro t
  obtain ⟨b, t₁, is, hrun, hfollows⟩ := hy t
  obtain ⟨c, t₂, js, hrun', hfollows'⟩ := hf b t₁
  exact ⟨c, t₂, is ++ js, by rw [Act.run_bind, hrun]; exact hrun', hfollows.trans hfollows'⟩

/-! ## What a recorder says of its operations -/

theorem isSuccess_switch (branch : String) (h : "checkout" ∉ t.failing) :
    (t.switch branch).1.isSuccess = true := by
  unfold switch forced
  simp [record, h, Outcome.isSuccess]

theorem isSuccess_stage (t : Recorder) (paths : List String) :
    (t.stage paths).1.isSuccess = paths.all t.hasPath := by
  have hmissing : (paths.filter fun p => !t.hasPath p).isEmpty = paths.all t.hasPath := by
    rw [Bool.eq_iff_iff]; simp
  simp only [stage, hmissing]
  cases paths.all t.hasPath <;> rfl

theorem isSuccess_remove (t : Recorder) (path : String) :
    (t.remove path).1.isSuccess = t.hasPath path := by
  have hrecord : (t.record (.remove path)).hasPath path = t.hasPath path := rfl
  simp only [remove, hrecord]
  cases t.hasPath path <;> rfl

end Recorder

end Backdate
