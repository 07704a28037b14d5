import Backdate.Proofs.Conversations
import Mathlib.Data.List.Forall2

/-!
# Two runs in lock step

What a run does not depend on is shown by two runs that differ in it. Two actions
are **alike** if, from related states, they end in related states, and both in
the same fault or both with related results (`Act.Alike`). This goes through
sequences (`Act.Alike.bind`), so it is shown of the smallest actions and follows
for the others:

* on git, from the start of a process and the keeping of a note to all that an
  event asks for (`Git.InStep.preparing`, `Git.InStep.writing`);
* on any two tools, from operations to events (`Replayer.alike_apply`) and to
  whole replays (`Replayer.alike_replayOnto`).
-/

namespace Backdate

open Calendar

variable {σ τ α β γ δ : Type}

/-- Two actions end in the same fault, or both well with related results. -/
inductive Agree (R : α → β → Prop) : Except Fault α → Except Fault β → Prop
  | ok {a : α} {b : β} (h : R a b) : Agree R (.ok a) (.ok b)
  | fault (why : Fault) : Agree R (.error why) (.error why)

theorem agree_eq_iff {x y : Except Fault α} : Agree Eq x y ↔ x = y := by
  constructor
  · rintro (h | _)
    · rw [h]
    · rfl
  · rintro rfl
    cases x with
    | ok a => exact .ok rfl
    | error why => exact .fault why

namespace Act

/-- **Two actions in lock step**, for a relation of their states and one of their results. -/
def Alike (S : σ → τ → Prop) (R : α → β → Prop) (x : Act σ α) (y : Act τ β) : Prop :=
  ∀ s t, S s t → Agree R (x.run s).1 (y.run t).1 ∧ S (x.run s).2 (y.run t).2

variable {S : σ → τ → Prop} {Q : α → β → Prop} {R : γ → δ → Prop}

theorem alike_pure {a : α} {b : β} (h : Q a b) :
    Alike S Q (pure a) (pure b) := fun _ _ hst => ⟨.ok h, hst⟩

theorem alike_throw (why : Fault) : Alike S Q (throw why) (throw why) :=
  fun _ _ hst => ⟨.fault why, hst⟩

theorem alike_modify {f : σ → σ} {f' : τ → τ} (h : ∀ s t, S s t → S (f s) (f' t)) :
    Alike S Eq (modify f : Act σ PUnit) (modify f' : Act τ PUnit) :=
  fun s t hst => ⟨.ok rfl, h s t hst⟩

/-- **Sequences are alike if their parts are.** -/
theorem Alike.bind {x : Act σ α} {y : Act τ β} {f : α → Act σ γ} {f' : β → Act τ δ}
    (hx : Alike S Q x y) (hf : ∀ a b, Q a b → Alike S R (f a) (f' b)) :
    Alike S R (x >>= f) (y >>= f') := by
  intro s t hst
  obtain ⟨hres, hnext⟩ := hx s t hst
  rw [run_bind, run_bind]
  rcases hxs : x.run s with ⟨res, s₁⟩
  rcases hyt : y.run t with ⟨res', t₁⟩
  rw [hxs, hyt] at hres hnext
  -- both go on, or both stop here
  cases hres with
  | ok h => exact hf _ _ h s₁ t₁ hnext
  | fault why => exact ⟨.fault why, hnext⟩

/-- Sequences that go on from the same result. -/
theorem Alike.then {x : Act σ α} {y : Act τ α} {f : α → Act σ γ} {f' : α → Act τ δ}
    (hx : Alike S Eq x y) (hf : ∀ a, Alike S R (f a) (f' a)) : Alike S R (x >>= f) (y >>= f') := by
  refine hx.bind fun a b hab => ?_
  subst hab
  exact hf a

theorem alike_ite {c : Prop} [Decidable c] {x x' : Act σ α} {y y' : Act τ β}
    (h : Alike S Q x y) (h' : Alike S Q x' y') :
    Alike S Q (if c then x else x') (if c then y else y') := by
  split
  · exact h
  · exact h'

end Act

open Act

/-! ## Git -/

namespace Git

/-- **Two runs of git in lock step**: they start the same commands, up to related variables, and
keep the same notes. -/
structure InStep (S : Git → Git → Prop)
    (E : List (String × String) → List (String × String) → Prop) : Prop where
  plain : E [] []
  start : ∀ args {env env'}, E env env' → Alike S Eq (start ⟨args, env⟩) (start ⟨args, env'⟩)
  log : ∀ text, Alike S Eq (modify (log text)) (modify (log text))

namespace InStep

variable {S : Git → Git → Prop} {E : List (String × String) → List (String × String) → Prop}
  {env env' : List (String × String)} {stamp stamp' : Stamp}

theorem run (h : InStep S E) (step : String) (args : List String) (henv : E env env') :
    Alike S Eq (run step ⟨args, env⟩) (run step ⟨args, env'⟩) := by
  refine (h.start args henv).then fun reply => alike_ite (alike_pure rfl) ?_
  exact (h.log _).then fun _ => alike_pure rfl

theorem isRepository (h : InStep S E) : Alike S Eq isRepository isRepository :=
  (h.start _ h.plain).then fun _ => alike_pure rfl

theorem currentBranch (h : InStep S E) : Alike S Eq currentBranch currentBranch :=
  (h.start _ h.plain).then fun _ => alike_ite (alike_pure rfl) (alike_throw _)

theorem branchExists (h : InStep S E) (branch : String) :
    Alike S Eq (branchExists branch) (branchExists branch) :=
  (h.start _ h.plain).then fun _ => alike_pure rfl

theorem switch (h : InStep S E) (branch : String) : Alike S Eq (switch branch) (switch branch) := by
  refine (h.run _ _ h.plain).then fun outcome => alike_ite (alike_pure rfl) ?_
  refine (h.branchExists branch).then fun known => alike_ite (alike_pure rfl) ?_
  exact (h.log _).then fun _ => h.run _ _ h.plain

theorem stageEach (h : InStep S E) (paths : List String) :
    Alike S Eq (stageEach paths) (stageEach paths) := by
  induction paths with
  | nil => exact alike_pure rfl
  | cons path paths ih =>
    rw [stageEach_cons]
    exact (h.run _ _ h.plain).then fun outcome => ih.then fun rest => alike_pure rfl

theorem stage (h : InStep S E) (paths : List String) : Alike S Eq (stage paths) (stage paths) :=
  (h.stageEach paths).then fun _ => alike_ite (alike_pure rfl) (alike_pure rfl)

theorem unstageEach (h : InStep S E) (paths : List String) :
    Alike S Eq (unstageEach paths) (unstageEach paths) := by
  induction paths with
  | nil => exact alike_pure rfl
  | cons path paths ih =>
    exact (h.run _ _ h.plain).then fun outcome => alike_ite ih (alike_pure rfl)

theorem stageAllExcept (h : InStep S E) (excluded : List String) :
    Alike S Eq (stageAllExcept excluded) (stageAllExcept excluded) :=
  (h.run _ _ h.plain).then fun _ => alike_ite (h.unstageEach excluded) (alike_pure rfl)

theorem undo (h : InStep S E) (failure : Outcome) : Alike S Eq (undo failure) (undo failure) := by
  refine (h.run _ _ h.plain).then fun undone => ?_
  cases undone.describe with
  | none => exact alike_pure rfl
  | some line => exact (h.log line).then fun _ => alike_pure rfl

theorem merge (h : InStep S E) (source message : String)
    (hstamp : E stamp.environment stamp'.environment) :
    Alike S Eq (merge source message stamp) (merge source message stamp') := by
  rw [merge_eq, merge_eq]
  refine (h.start _ hstamp).then fun reply => alike_ite (alike_pure rfl) ?_
  exact alike_ite (h.undo _) (alike_pure rfl)

/-- **An event goes to its branch and prepares without a stamp.** -/
theorem preparing (h : InStep S E) (r : Replayer) (e : Event) :
    ∀ op ∈ Operation.switch e.branch :: r.preparations e,
      Alike S Eq (op.perform : Act Git Outcome) (op.perform : Act Git Outcome) := by
  intro op hop
  rcases List.mem_cons.1 hop with rfl | hop
  · exact h.switch e.branch
  have hprepares := r.prepares_preparations e op hop
  cases op with
  | stage paths => exact h.stage paths
  | stageAllExcept excluded => exact h.stageAllExcept excluded
  | remove path => exact h.run _ _ h.plain
  | switch branch => cases hprepares
  | commit message stamp allowEmpty => cases hprepares
  | merge source message stamp => cases hprepares
  | tag name message stamp => cases hprepares

/-- **What an event writes under two stamps.** -/
theorem writing (h : InStep S E) (e : Event) (hstamp : E stamp.environment stamp'.environment) :
    Alike S Eq ((e.writing stamp).perform : Act Git Outcome)
      ((e.writing stamp').perform : Act Git Outcome) := by
  rcases e with ⟨branch, author, time, action⟩
  cases action with
  | change message paths => exact h.run _ _ hstamp
  | deletion message paths => exact h.run _ _ hstamp
  | merge source => exact h.merge _ _ hstamp
  | tag name message => exact h.run _ _ hstamp

end InStep

end Git

/-! ## Events and replays -/

section Replay

variable [Tool σ] [Tool τ] {S : σ → τ → Prop} {R : Report → Report → Prop} {r r' : Replayer}
  {e : Event}

theorem alike_performAll {ops : List Operation}
    (h : ∀ op ∈ ops, Alike S Eq (op.perform : Act σ Outcome) (op.perform : Act τ Outcome)) :
    Alike S Eq (Operation.performAll ops : Act σ _) (Operation.performAll ops : Act τ _) := by
  induction ops with
  | nil => exact alike_pure rfl
  | cons op ops ih =>
    obtain ⟨hop, hops⟩ := List.forall_mem_cons.1 h
    exact hop.then fun outcome => (ih hops).then fun rest => alike_pure rfl

namespace Replayer

/-- **Events in lock step.** Two replayers with the same preparations may write under different
stamps, and report different moments. -/
theorem alike_apply {m m' : Moment} (hm : r.anchor.resolve e.time = .ok m)
    (hm' : r'.anchor.resolve e.time = .ok m') (hprepare : r'.preparations e = r.preparations e)
    (hops : ∀ op ∈ Operation.switch e.branch :: r.preparations e,
      Alike S Eq (op.perform : Act σ Outcome) (op.perform : Act τ Outcome))
    (hwrite : Alike S Eq ((e.writing (r.stamp e.author m)).perform : Act σ Outcome)
      ((e.writing (r'.stamp e.author m')).perform : Act τ Outcome))
    (hnoted : ∀ outcome warnings, Alike S R (noted (e.report m outcome warnings) : Act σ Report)
      (noted (e.report m' outcome warnings) : Act τ Report)) :
    Alike S R (r.apply e : Act σ Report) (r'.apply e : Act τ Report) := by
  obtain ⟨hswitch, hpreparations⟩ := List.forall_mem_cons.1 hops
  rw [apply_eq, apply_eq, perform_eq, perform_eq, resolve_eq hm, resolve_eq hm', pure_bind, pure_bind]
  -- up to the note, the two reports differ in their moments only
  let Same (report report' : Report) : Prop :=
    ∃ outcome warnings, report = e.report m outcome warnings ∧ report' = e.report m' outcome warnings
  have hnote : ∀ report report', Same report report' →
      Alike S R (noted report : Act σ Report) (noted report' : Act τ Report) := by
    rintro _ _ ⟨outcome, warnings, rfl, rfl⟩
    exact hnoted outcome warnings
  refine Alike.bind (Q := Same) (hswitch.then fun switched => alike_ite ?_ ?_) hnote
  · unfold onBranch
    rw [hprepare]
    refine (alike_performAll hpreparations).then fun warnings => hwrite.then fun outcome => ?_
    exact alike_pure ⟨outcome, warnings, rfl, rfl⟩
  · exact alike_pure ⟨switched, [], rfl, rfl⟩

/-- **Replays in lock step.** If events are alike from related states on, the replays report the
same events in the same order with related reports, end in the same fault or with related
summaries, and leave related states. -/
theorem alike_replayOnto {T : Summary → Summary → Prop} {es : List Event}
    (hrecord : ∀ sm sm' report report', T sm sm' → R report report' →
      T (sm.record report) (sm'.record report'))
    (happly : ∀ e ∈ es, Alike S R (r.apply e : Act σ Report) (r'.apply e : Act τ Report))
    {sm sm' : Summary} {s : σ} {t : τ} (hsm : T sm sm') (hst : S s t) :
    List.Forall₂ (fun done done' => done.1 = done'.1 ∧ R done.2 done'.2)
        (r.replayOnto sm es s).reports (r'.replayOnto sm' es t).reports ∧
      Agree T (r.replayOnto sm es s).result (r'.replayOnto sm' es t).result ∧
      S (r.replayOnto sm es s).tool (r'.replayOnto sm' es t).tool := by
  induction es generalizing sm sm' s t with
  | nil => exact ⟨.nil, .ok hsm, hst⟩
  | cons e es ih =>
    obtain ⟨he, hes⟩ := List.forall_mem_cons.1 happly
    obtain ⟨hres, hnext⟩ := he s t hst
    rcases hs : (r.apply e).run s with ⟨res, s₁⟩
    rcases ht : (r'.apply e).run t with ⟨res', t₁⟩
    rw [hs, ht] at hres hnext
    -- a fault ends both replays at this event
    cases hres with
    | fault why =>
      rw [replayOnto_cons_error hs, replayOnto_cons_error ht]
      exact ⟨.nil, .fault why, hnext⟩
    | ok h =>
      rw [replayOnto_cons_ok hs, replayOnto_cons_ok ht]
      obtain ⟨hreports, hresult, htool⟩ := ih hes (hrecord _ _ _ _ hsm h) hnext
      exact ⟨.cons ⟨rfl, h⟩ hreports, hresult, htool⟩

end Replayer

end Replay

end Backdate
