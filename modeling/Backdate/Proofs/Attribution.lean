import Backdate.Proofs.BranchDiscipline
import Backdate.Proofs.Handover
import Backdate.Proofs.Recording

/-!
# Attribution

What is written into history carries the name, the address and the date of its
own event, and nothing else that git is asked for carries any (`replay_attributed`).

* An event asks a tool for its operations only. On git these are the calls of
  the operations (`Course.asked`); on a recorder, the operations themselves
  (`keepsTo_apply`).
* Among the operations of an event, those that write carry its stamp and the
  others none (`stamp_of_mem_operations`, `environment_of_mem_calls`).
-/

namespace Backdate

open Calendar

/-- **The six variables of an event**: the identity that its author stands for, as author and as
committer, and its moment as either date. -/
def Replayer.signature (r : Replayer) (e : Event) (m : Moment) : List (String × String) :=
  [("GIT_AUTHOR_NAME", (r.authors.identity e.author).name),
   ("GIT_AUTHOR_EMAIL", (r.authors.identity e.author).email),
   ("GIT_COMMITTER_NAME", (r.authors.identity e.author).name),
   ("GIT_COMMITTER_EMAIL", (r.authors.identity e.author).email),
   ("GIT_AUTHOR_DATE", m.text),
   ("GIT_COMMITTER_DATE", m.text)]

/-- A call that writes history carries the variables of the event, and any other carries none. -/
structure Call.Attributed (r : Replayer) (e : Event) (c : Call) : Prop where
  signed : c.writesHistory = true →
    ∃ m, r.anchor.resolve e.time = .ok m ∧ c.environment = r.signature e m
  plain : c.writesHistory = false → c.environment = []

/-! ## Stamped operations -/

/-- The stamp of an operation that writes history: a commit, a merge or a tag. -/
def Operation.stamp? : Operation → Option Stamp
  | .commit _ stamp _ => some stamp
  | .merge _ _ stamp => some stamp
  | .tag _ _ stamp => some stamp
  | .switch _ | .stage _ | .stageAllExcept _ | .remove _ => none

/-- The stamp of a recorded commit, merge or tag. -/
def Invocation.stamp? (i : Invocation) : Option Stamp := i.operation.stamp?

theorem Operation.stamp?_of_prepares {op : Operation} (h : op.prepares = true) :
    op.stamp? = none := by
  cases op with
  | switch branch => rfl
  | stage paths => rfl
  | stageAllExcept excluded => rfl
  | remove path => rfl
  | commit message stamp allowEmpty => cases h
  | merge source message stamp => cases h
  | tag name message stamp => cases h

/-- **The operations of an event carry its own stamp, or none.** -/
theorem Replayer.stamp_of_mem_operations {r : Replayer} {e : Event} {m : Moment} {op : Operation}
    {stamp : Stamp} (h : op ∈ r.operations e m) (hs : op.stamp? = some stamp) :
    stamp = r.stamp e.author m := by
  rcases List.mem_cons.1 h with rfl | h
  · cases hs
  rcases List.mem_append.1 h with h | h
  · rw [Operation.stamp?_of_prepares (r.prepares_preparations e op h)] at hs; cases hs
  · rw [List.mem_singleton.1 h] at hs
    unfold Event.writing at hs
    split at hs <;> exact (Option.some.inj hs).symm

/-- A call of an operation writes history under the stamp of the operation, or carries nothing. -/
theorem Git.environment_of_mem_calls {op : Operation} {c : Call} (hc : c ∈ calls op) :
    (c.writesHistory = true ∧ ∃ stamp, op.stamp? = some stamp ∧ c.environment = stamp.environment) ∨
      (c.writesHistory = false ∧ c.environment = []) := by
  have hprepares : ∀ {c : Call}, c.prepares = true → c.writesHistory = false :=
    fun h => (Call.not_writesHistory_of_prepares h).1
  cases op with
  | switch branch =>
    right
    simp only [calls, List.mem_cons, List.not_mem_nil, or_false] at hc
    rcases hc with rfl | rfl | rfl <;>
      simp [Call.writesHistory, Call.command, Call.checkout, Call.verify, Call.create]
  | stage paths =>
    obtain ⟨path, -, rfl⟩ := List.mem_map.1 hc
    exact .inr ⟨hprepares (by simp [Call.prepares, Call.command, Call.add]), rfl⟩
  | stageAllExcept excluded =>
    rcases List.mem_cons.1 hc with rfl | hc
    · exact .inr ⟨by decide, rfl⟩
    · obtain ⟨path, -, rfl⟩ := List.mem_map.1 hc
      exact .inr ⟨hprepares (by simp [Call.prepares, Call.command, Call.reset]), rfl⟩
  | remove path =>
    rw [List.mem_singleton.1 hc]
    exact .inr ⟨hprepares (by simp [Call.prepares, Call.command, Call.remove]), rfl⟩
  | commit message stamp allowEmpty =>
    rw [List.mem_singleton.1 hc]
    exact .inl ⟨by simp [Call.writesHistory, Call.command, Call.commit], stamp, rfl, rfl⟩
  | merge source message stamp =>
    rcases List.mem_cons.1 hc with rfl | hc
    · exact .inl ⟨by simp [Call.writesHistory, Call.command, Call.merge], stamp, rfl, rfl⟩
    · rw [List.mem_singleton.1 hc]
      exact .inr ⟨not_writesHistory_abort, rfl⟩
  | tag name message stamp =>
    rw [List.mem_singleton.1 hc]
    exact .inl ⟨by simp [Call.writesHistory, Call.command, Call.tag], stamp, rfl, rfl⟩

/-! ## Events on git -/

namespace Git

variable {r : Replayer} {e : Event} {g : Git}

/-- **An event calls git for its operations only**, and not at all without a moment. -/
theorem Course.asked {ps : List Process} {res : Except Fault Report} (h : Course r e g ps res) :
    ∀ p ∈ ps, ∃ m, r.anchor.resolve e.time = .ok m ∧ p.call ∈ (r.operations e m).flatMap calls := by
  have hswitch : ∀ {m sw sres} {g' : Git}, r.anchor.resolve e.time = .ok m →
      Does (switch e.branch) g sw sres g' → ∀ p ∈ sw,
        ∃ m, r.anchor.resolve e.time = .ok m ∧ p.call ∈ (r.operations e m).flatMap calls := by
    intro m sw sres g' hm hs p hp
    have hc : p.call ∈ calls (.switch e.branch) := (does_switch hs).within.1 p hp
    exact ⟨m, hm, List.mem_flatMap.2 ⟨_, List.mem_cons_self, hc⟩⟩
  have hprepare : ∀ {m qs qres} {g₁ g' : Git}, r.anchor.resolve e.time = .ok m →
      Does (Operation.performAll (r.preparations e)) g₁ qs qres g' → ∀ p ∈ qs,
        ∃ m, r.anchor.resolve e.time = .ok m ∧ p.call ∈ (r.operations e m).flatMap calls := by
    intro m qs qres g₁ g' hm hq p hp
    obtain ⟨op, hop, hc⟩ := List.mem_flatMap.1 ((does_performAll hq).1 p hp)
    refine ⟨m, hm, List.mem_flatMap.2 ⟨op, ?_, hc⟩⟩
    simp [Replayer.operations, hop]
  intro p hp
  cases h with
  | unresolved _ => exact absurd hp List.not_mem_nil
  | lost hm hs => exact hswitch hm hs p hp
  | barred hm hs _ => exact hswitch hm hs p hp
  | unprepared hm hs hq =>
    rcases List.mem_append.1 hp with hp | hp
    · exact hswitch hm hs p hp
    · exact hprepare hm hq p hp
  | unwritten hm hs hq _ =>
    rcases List.mem_append.1 hp with hp | hp
    · exact hswitch hm hs p hp
    · exact hprepare hm hq p hp
  | @written m _ _ _ _ _ _ _ _ hm hs hq hw =>
    rcases List.mem_append.1 hp with hp | hp
    · exact hswitch hm hs p hp
    rcases List.mem_append.1 hp with hp | hp
    · exact hprepare hm hq p hp
    · have hc := (does_perform hw).1 p hp
      refine ⟨m, hm, List.mem_flatMap.2 ⟨_, ?_, hc⟩⟩
      simp [Replayer.operations]

theorem Course.attributed {ps : List Process} {res : Except Fault Report}
    (h : Course r e g ps res) : ∀ p ∈ ps, p.call.Attributed r e := by
  intro p hp
  obtain ⟨m, hm, hmem⟩ := h.asked p hp
  obtain ⟨op, hop, hc⟩ := List.mem_flatMap.1 hmem
  rcases environment_of_mem_calls hc with ⟨hw, stamp, hs, henv⟩ | ⟨hw, henv⟩
  · refine ⟨fun _ => ⟨m, hm, ?_⟩, fun hno => ?_⟩
    · rw [henv, Replayer.stamp_of_mem_operations hop hs]; rfl
    · rw [hw] at hno; cases hno
  · refine ⟨fun hyes => ?_, fun _ => henv⟩
    rw [hw] at hyes; cases hyes

end Git

/-! ## Events on a recorder -/

namespace Recorder

variable {β γ : Type} {ops : List Operation} {r : Replayer} {e : Event}

/-- An action that adds to a recording, and only operations of the given ones. -/
def KeepsTo (ops : List Operation) (y : Act Recorder β) : Prop :=
  ∀ t, ∃ is, (y.run t).2.calls = t.calls ++ is ∧ ∀ i ∈ is, i.operation ∈ ops

theorem keepsTo_pure (b : β) : KeepsTo ops (pure b) :=
  fun _ => ⟨[], (List.append_nil _).symm, by simp⟩

theorem keepsTo_throw (why : Fault) : KeepsTo ops (throw why : Act Recorder β) :=
  fun _ => ⟨[], (List.append_nil _).symm, by simp⟩

theorem keepsTo_note (n : Note) : KeepsTo ops (modify (Tool.note n)) :=
  fun _ => ⟨[], (List.append_nil _).symm, by simp⟩

theorem keepsTo_perform {op : Operation} (h : op ∈ ops) : KeepsTo ops op.perform := by
  intro t
  rw [run_perform]
  refine ⟨[t.invocation op], (t.step_records op).1, fun i hi => ?_⟩
  rw [List.mem_singleton.1 hi, operation_invocation]; exact h

theorem keepsTo_bind {y : Act Recorder β} {f : β → Act Recorder γ} (hy : KeepsTo ops y)
    (hf : ∀ b, KeepsTo ops (f b)) : KeepsTo ops (y >>= f) := by
  intro t
  obtain ⟨is, hcalls, his⟩ := hy t
  rw [Act.run_bind]
  rcases hyt : y.run t with ⟨why | b, t₁⟩ <;> rw [hyt] at hcalls
  · exact ⟨is, hcalls, his⟩
  · obtain ⟨js, hcalls', hjs⟩ := hf b t₁
    refine ⟨is ++ js, ?_, fun i hi => (List.mem_append.1 hi).elim (his i) (hjs i)⟩
    rw [hcalls', hcalls, List.append_assoc]

theorem keepsTo_performAll {todo : List Operation} (h : ∀ op ∈ todo, op ∈ ops) :
    KeepsTo ops (Operation.performAll todo) := by
  induction todo with
  | nil => exact keepsTo_pure _
  | cons op todo ih =>
    have hrest := ih fun op hop => h op (List.mem_cons_of_mem _ hop)
    exact keepsTo_bind (keepsTo_perform (h op List.mem_cons_self)) fun _ =>
      keepsTo_bind hrest fun _ => keepsTo_pure _

theorem keepsTo_noted (report : Report) : KeepsTo ops (Replayer.noted report) := by
  unfold Replayer.noted
  cases report.outcome.describe with
  | none => exact keepsTo_pure _
  | some line => exact keepsTo_bind (keepsTo_note _) fun _ => keepsTo_pure _

/-- **A recorder is asked for the operations of the event only.** -/
theorem keepsTo_apply {m : Moment} (hm : r.anchor.resolve e.time = .ok m) :
    KeepsTo (r.operations e m) (r.apply e) := by
  have hprepare : ∀ op ∈ r.preparations e, op ∈ r.operations e m :=
    fun op hop => by simp [Replayer.operations, hop]
  have hwrite : e.writing (r.stamp e.author m) ∈ r.operations e m := by simp [Replayer.operations]
  rw [Replayer.apply_eq, Replayer.perform_eq, Replayer.resolve_eq hm, pure_bind]
  refine keepsTo_bind (keepsTo_bind (keepsTo_perform List.mem_cons_self) fun o => ?_) keepsTo_noted
  split
  · exact keepsTo_bind (keepsTo_performAll hprepare) fun _ =>
      keepsTo_bind (keepsTo_perform hwrite) fun _ => keepsTo_pure _
  · exact keepsTo_pure _

/-- Without a moment it is asked for nothing. -/
theorem keepsTo_apply_unresolved {why : Anchor.Unresolved}
    (hm : r.anchor.resolve e.time = .error why) : KeepsTo [] (r.apply e : Act Recorder Report) := by
  rw [Replayer.apply_eq, Replayer.perform_eq]
  unfold Replayer.resolve
  rw [hm]
  exact keepsTo_throw _

/-- What an episode recorded. -/
def recorded (ep : Episode Recorder) : List Invocation :=
  ep.after.calls.drop ep.before.calls.length

theorem stamp_of_mem_recorded {t : Recorder} {i : Invocation} {stamp : Stamp}
    (hi : i ∈ recorded (r.episode e t)) (hs : i.stamp? = some stamp) :
    ∃ m, r.anchor.resolve e.time = .ok m ∧ stamp.environment = r.signature e m := by
  -- what was recorded is what the action added to the recording
  have hsplit : ∀ {ops}, KeepsTo ops (r.apply e) → i.operation ∈ ops := by
    intro ops hkeeps
    obtain ⟨is, hcalls, his⟩ := hkeeps t
    have heq : recorded (r.episode e t) = is := by
      unfold recorded
      rw [show (r.episode e t).after.calls = t.calls ++ is from hcalls]
      exact List.drop_left
    exact his i (heq ▸ hi)
  cases hm : r.anchor.resolve e.time with
  | error why => exact absurd (hsplit (keepsTo_apply_unresolved hm)) List.not_mem_nil
  | ok m =>
    have hop := hsplit (keepsTo_apply hm)
    refine ⟨m, rfl, ?_⟩
    rw [Replayer.stamp_of_mem_operations hop hs]; rfl

/-- An event only adds to what is recorded. -/
theorem calls_grow (r : Replayer) (e : Event) (t : Recorder) :
    t.calls <+: ((r.apply e).run t).2.calls := by
  cases hm : r.anchor.resolve e.time with
  | error why =>
    obtain ⟨is, hcalls, -⟩ := keepsTo_apply_unresolved hm t
    exact ⟨is, hcalls.symm⟩
  | ok m =>
    obtain ⟨is, hcalls, -⟩ := keepsTo_apply hm t
    exact ⟨is, hcalls.symm⟩

theorem replayOnto_calls (r : Replayer) (sm : Summary) (es : List Event) (t : Recorder) :
    (r.replayOnto sm es t).tool.calls = t.calls ++ (r.episodes es t).flatMap recorded :=
  Replayer.replayOnto_log Recorder.calls (calls_grow r) sm es t

end Recorder

/-- **History carries the name and the date of its own event.** Cut a replay into its events, in
order. Whatever git replies, each call that writes history carries exactly the six variables of the
event that made it, and every other call carries none; and whatever a recorder holds, each commit,
merge and tag that it records has these variables too. -/
theorem replay_attributed (r : Replayer) (es : List Event) :
    (∀ g : Git,
      (r.replay es g).tool.ran = g.ran ++ (r.episodes es g).flatMap Git.processes ∧
        (r.episodes es g).map (·.event) <+: es ∧
        ∀ ep ∈ r.episodes es g, ∀ p ∈ Git.processes ep, p.call.Attributed r ep.event) ∧
    ∀ t : Recorder,
      (r.replay es t).tool.calls = t.calls ++ (r.episodes es t).flatMap Recorder.recorded ∧
        (r.episodes es t).map (·.event) <+: es ∧
        ∀ ep ∈ r.episodes es t, ∀ i ∈ Recorder.recorded ep, ∀ stamp, i.stamp? = some stamp →
          ∃ m, r.anchor.resolve ep.event.time = .ok m ∧
            stamp.environment = r.signature ep.event m := by
  refine ⟨fun g => ?_, fun t => ?_⟩
  · refine ⟨Git.replayOnto_ran r {} es g, r.episodes_events es g, fun ep hep => ?_⟩
    exact (Git.course_of_mem hep).2.attributed
  · refine ⟨Recorder.replayOnto_calls r {} es t, r.episodes_events es t, ?_⟩
    intro ep hep i hi stamp hs
    have heq := (Replayer.mem_episodes hep).2
    rw [heq] at hi
    exact Recorder.stamp_of_mem_recorded hi hs

end Backdate
