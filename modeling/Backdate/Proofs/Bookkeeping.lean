import Backdate.Proofs.Staging
import Mathlib.Data.List.Induction

/-!
# The books of a recorder

What holds of a recorder under any operations in any order, and not only under
those of events. A recorder is set up with some files (its working tree at that
point), any branches and any failing steps.

* `mem_worktree_step`, `mem_index_puts`, `current_step`: all that one operation
  does to the working tree, the index and the current branch;
* `mem_index_steps`: the index after a run is what the run `Gathered`, so what a
  commit takes up is a matter of the operations since the commit before it;
* `recorded_at`: the place in a run of a recorded invocation;
* `books_kept`: all of this, at every point of every run.
-/

namespace Backdate

/-- A commit, with whatever message and stamp. -/
def Operation.commits : Operation → Bool
  | .commit .. => true
  | .switch _ | .stage _ | .stageAllExcept _ | .remove _ | .merge .. | .tag .. => false

namespace Recorder

variable {t : Recorder} {op : Operation} {ops : List Operation} {p : String}

/-! ## Operations in turn -/

theorem steps_cons (t : Recorder) (op : Operation) (ops : List Operation) :
    (t.steps (op :: ops)).2 = ((t.step op).2.steps ops).2 := rfl

theorem steps_append (t : Recorder) (before after : List Operation) :
    (t.steps (before ++ after)).2 = ((t.steps before).2.steps after).2 := by
  induction before generalizing t with
  | nil => rfl
  | cons op before ih => rw [List.cons_append, steps_cons, ih, steps_cons]

/-! ## One operation -/

/-- **A path is staged or removed by an operation**: it is listed and there, or there and not
excluded, or its removal is a success. -/
def Gathers (t : Recorder) (op : Operation) (p : String) : Prop :=
  match op with
  | .stage paths => p ∈ paths ∧ p ∈ t.worktree
  | .stageAllExcept excluded => p ∈ t.worktree ∧ p ∉ excluded
  | .remove path => p = path ∧ (t.remove path).1 = .success
  | .switch _ | .commit .. | .merge .. | .tag .. => False

/-- A path was staged or removed by one of some operations, as the recorder was at that point. -/
def Gathered (t : Recorder) (ops : List Operation) (p : String) : Prop :=
  ∃ before op after, ops = before ++ op :: after ∧ (t.steps before).2.Gathers op p

theorem gathered_nil : ¬ t.Gathered [] p := by
  rintro ⟨before, op, after, heq, -⟩
  exact absurd heq (by simp)

theorem gathered_cons :
    t.Gathered (op :: ops) p ↔ t.Gathers op p ∨ (t.step op).2.Gathered ops p := by
  constructor
  · rintro ⟨before, op', after, heq, h⟩
    cases before with
    | nil =>
      obtain ⟨rfl, rfl⟩ := List.cons.inj heq
      exact .inl h
    | cons first before =>
      obtain ⟨rfl, hops⟩ := List.cons.inj heq
      exact .inr ⟨before, op', after, hops, h⟩
  · rintro (h | ⟨before, op', after, hops, h⟩)
    · exact ⟨[], op, ops, rfl, h⟩
    · exact ⟨op :: before, op', after, by rw [hops]; rfl, h⟩

/-- No operation makes a recorder permissive. -/
theorem permissive_step (t : Recorder) (op : Operation) :
    (t.step op).2.permissive = t.permissive := by
  cases op with
  | switch branch => exact (t.switch_keeps branch).2.2
  | stage paths => simp only [step, stage]; split <;> rfl
  | remove path => exact (t.mem_remove path path).2.2
  | stageAllExcept excluded => rfl
  | commit message stamp allowEmpty => rfl
  | merge source message stamp => rfl
  | tag name message stamp => rfl

/-- **Only its removal takes a path out of the working tree**, and nothing brings one in. -/
theorem mem_worktree_step (t : Recorder) (op : Operation) (p : String) :
    p ∈ (t.step op).2.worktree ↔ p ∈ t.worktree ∧ op ≠ .remove p := by
  cases op with
  | switch branch =>
    have hsame : (t.switch branch).2.worktree = t.worktree := (t.switch_keeps branch).2.1
    simp [step, hsame]
  | stage paths =>
    have hsame : (t.stage paths).2.worktree = t.worktree := by simp only [stage]; split <;> rfl
    simp [step, hsame]
  | remove path =>
    have hremove := (t.mem_remove path p).2.1
    have hname : Operation.remove path ≠ .remove p ↔ p ≠ path := by
      rw [ne_eq, Operation.remove.injEq, eq_comm]
    rw [hname]; exact hremove
  | stageAllExcept excluded => simp [step, stageAllExcept, record]
  | commit message stamp allowEmpty => simp [step, commit, record]
  | merge source message stamp => simp [step, merge, record]
  | tag name message stamp => simp [step, tag, record]

theorem success_remove (t : Recorder) (path : String) :
    (t.remove path).1 = .success ↔ t.hasPath path = true := by
  rw [← isSuccess_remove]
  cases (t.remove path).1 with
  | success => exact iff_of_true rfl rfl
  | failure step detail => exact iff_of_false (by simp) (by simp [Outcome.isSuccess])

/-- On a recorder that is not permissive, a path is there if it is in the working tree. -/
theorem hasPath_strict (hstrict : t.permissive = false) : t.hasPath p = true ↔ p ∈ t.worktree := by
  rw [hasPath_iff, hstrict]; simp

/-- A path is put into the index by an operation. A permissive recorder takes every path that is
listed or removed to be there. -/
def Puts (t : Recorder) (op : Operation) (p : String) : Prop :=
  match op with
  | .stage paths => p ∈ paths ∧ t.hasPath p = true
  | .stageAllExcept excluded => p ∈ t.worktree ∧ p ∉ excluded
  | .remove path => p = path ∧ t.hasPath path = true
  | .switch _ | .commit .. | .merge .. | .tag .. => False

/-- **A commit uses the index up, and any other operation adds what it puts there.** -/
theorem mem_index_puts (t : Recorder) (op : Operation) (p : String) :
    p ∈ (t.step op).2.index ↔ (op.commits = false ∧ p ∈ t.index) ∨ t.Puts op p := by
  cases op with
  | switch branch =>
    have hsame : (t.switch branch).2.index = t.index := (t.switch_keeps branch).1
    simp [step, hsame, Operation.commits, Puts]
  | stage paths =>
    show p ∈ (t.stage paths).2.index ↔ _
    rw [index_stage, Names.mem_insertMany, List.mem_filter, or_comm]
    simp [Operation.commits, Puts]
  | stageAllExcept excluded =>
    have hfresh : p ∈ (t.worktree.filter fun p => !excluded.contains p).toList ↔
        p ∈ t.worktree ∧ p ∉ excluded := by
      show p ∈ t.worktree.filter (fun p => !excluded.contains p) ↔ _
      rw [Names.mem_filter]; simp
    show p ∈ t.index.insertMany _ ↔ _
    rw [Names.mem_insertMany, hfresh, or_comm]
    simp [Operation.commits, Puts]
  | remove path =>
    refine Iff.trans (t.mem_remove path p).1 ?_
    simp [Operation.commits, Puts]
  | commit message stamp allowEmpty =>
    have hempty : p ∉ (t.commit message stamp allowEmpty).2.index := List.not_mem_nil
    simp [step, hempty, Operation.commits, Puts]
  | merge source message stamp => simp [step, merge, record, Operation.commits, Puts]
  | tag name message stamp => simp [step, tag, record, Operation.commits, Puts]

/-- On a recorder that is not permissive, what is put into the index is what is gathered. -/
theorem puts_iff_gathers (hstrict : t.permissive = false) : t.Puts op p ↔ t.Gathers op p := by
  cases op with
  | stage paths => exact and_congr_right fun _ => hasPath_strict hstrict
  | remove path => exact and_congr_right fun _ => (success_remove t path).symm
  | stageAllExcept excluded => exact Iff.rfl
  | switch branch => exact Iff.rfl
  | commit message stamp allowEmpty => exact Iff.rfl
  | merge source message stamp => exact Iff.rfl
  | tag name message stamp => exact Iff.rfl

theorem mem_index_step (hstrict : t.permissive = false) (op : Operation) (p : String) :
    p ∈ (t.step op).2.index ↔ (op.commits = false ∧ p ∈ t.index) ∨ t.Gathers op p := by
  rw [mem_index_puts, puts_iff_gathers hstrict]

/-- **A recorder is on a branch that it knows**, and stays on one. -/
theorem current_step (h : ∀ branch, t.current = some branch → branch ∈ t.branches)
    (op : Operation) :
    ∀ branch, (t.step op).2.current = some branch → branch ∈ (t.step op).2.branches := by
  intro branch hcurrent
  cases op with
  | switch target =>
    have hbranches : (t.switch target).2.branches = t.branches.insert target := by
      simp only [switch]; split <;> rfl
    have hon : (t.switch target).2.current = some target ∨
        (t.switch target).2.current = t.current := by
      simp only [switch]
      split
      · exact .inl rfl
      · exact .inr rfl
    show branch ∈ (t.switch target).2.branches
    rw [hbranches, Names.mem_insert]
    rcases hon with hon | hon
    · have heq : some target = some branch := hon.symm.trans hcurrent
      exact .inl (Option.some.inj heq).symm
    · exact .inr (h branch (hon.symm.trans hcurrent))
  | stage paths =>
    have hsame : (t.stage paths).2.current = t.current ∧
        (t.stage paths).2.branches = t.branches := by
      simp only [stage]; split <;> exact ⟨rfl, rfl⟩
    show branch ∈ (t.stage paths).2.branches
    rw [hsame.2]
    exact h branch (hsame.1.symm.trans hcurrent)
  | remove path =>
    have hsame : (t.remove path).2.current = t.current ∧
        (t.remove path).2.branches = t.branches := by
      simp only [remove]; split <;> exact ⟨rfl, rfl⟩
    show branch ∈ (t.remove path).2.branches
    rw [hsame.2]
    exact h branch (hsame.1.symm.trans hcurrent)
  | stageAllExcept excluded => exact h branch hcurrent
  | commit message stamp allowEmpty => exact h branch hcurrent
  | merge source message stamp => exact h branch hcurrent
  | tag name message stamp => exact h branch hcurrent

/-! ## Runs -/

/-- **What every operation keeps**, given the files that the recorder was set up with. -/
structure Sound (files : Names) (t : Recorder) : Prop where
  strict : t.permissive = false
  worktree : ∀ p ∈ t.worktree, p ∈ files
  index : ∀ p ∈ t.index, p ∈ files
  current : ∀ branch, t.current = some branch → branch ∈ t.branches

/-- What is gathered was there. -/
theorem Gathers.there (hstrict : t.permissive = false) (h : t.Gathers op p) : p ∈ t.worktree := by
  cases op with
  | stage paths => exact h.2
  | stageAllExcept excluded => exact h.1
  | remove path =>
    obtain ⟨rfl, hok⟩ := h
    exact (hasPath_strict hstrict).1 ((success_remove t p).1 hok)
  | switch branch => exact h.elim
  | commit message stamp allowEmpty => exact h.elim
  | merge source message stamp => exact h.elim
  | tag name message stamp => exact h.elim

theorem not_gathers_of_commits (h : op.commits = true) : ¬ t.Gathers op p := by
  cases op with
  | commit message stamp allowEmpty => exact id
  | switch branch => cases h
  | stage paths => cases h
  | stageAllExcept excluded => cases h
  | remove path => cases h
  | merge source message stamp => cases h
  | tag name message stamp => cases h

theorem Sound.step {files : Names} (h : Sound files t) (op : Operation) :
    Sound files (t.step op).2 where
  strict := (t.permissive_step op).trans h.strict
  worktree p hp := h.worktree p ((t.mem_worktree_step op p).1 hp).1
  index p hp := by
    rcases (mem_index_step h.strict op p).1 hp with ⟨-, hin⟩ | hgathers
    · exact h.index p hin
    · exact h.worktree p (hgathers.there h.strict)
  current := current_step h.current op

theorem Sound.steps {files : Names} (h : Sound files t) (ops : List Operation) :
    Sound files (t.steps ops).2 := by
  induction ops generalizing t with
  | nil => exact h
  | cons op ops ih => exact ih (h.step op)

/-- A recorder that was set up is on its first branch, if it has one. -/
theorem Built.current_known (h : t.Built) :
    ∀ branch, t.current = some branch → branch ∈ t.branches := by
  induction h with
  | new permissive => intro branch hcurrent; cases hcurrent
  | withFiles _ _ ih => exact ih
  | withFailing _ _ ih => exact ih
  | @withBranch t _ added ih =>
    intro branch hcurrent
    show branch ∈ t.branches.insert added
    rw [Names.mem_insert]
    cases hbefore : t.current with
    | none =>
      have hfirst : (t.withBranch added).current = some added := by
        simp [Recorder.withBranch, hbefore]
      exact .inl (Option.some.inj (hfirst.symm.trans hcurrent)).symm
    | some old =>
      have hsame : (t.withBranch added).current = some old := by
        simp [Recorder.withBranch, hbefore]
      have heq : old = branch := Option.some.inj (hsame.symm.trans hcurrent)
      exact .inr (ih branch (by rw [hbefore, heq]))

theorem Built.sound (h : t.Built) (hstrict : t.permissive = false) : Sound t.worktree t where
  strict := hstrict
  worktree _ hp := hp
  index p hp := by
    rw [h.unused.1] at hp
    exact absurd hp List.not_mem_nil
  current := h.current_known

/-- What is gone stays gone. -/
theorem worktree_steps (t : Recorder) (ops : List Operation) :
    ∀ p ∈ (t.steps ops).2.worktree, p ∈ t.worktree := by
  induction ops generalizing t with
  | nil => exact fun p hp => hp
  | cons op ops ih =>
    intro p hp
    have hnext : p ∈ (t.step op).2.worktree := ih (t.step op).2 p hp
    exact ((t.mem_worktree_step op p).1 hnext).1

theorem permissive_steps (t : Recorder) (ops : List Operation) :
    (t.steps ops).2.permissive = t.permissive := by
  induction ops generalizing t with
  | nil => rfl
  | cons op ops ih => exact (ih (t.step op).2).trans (t.permissive_step op)

/-- **The index between two commits** is what was there before and what has been gathered. -/
theorem mem_index_steps (hstrict : t.permissive = false)
    (hops : ∀ op ∈ ops, op.commits = false) :
    p ∈ (t.steps ops).2.index ↔ p ∈ t.index ∨ t.Gathered ops p := by
  induction ops generalizing t with
  | nil => exact ⟨.inl, fun h => h.resolve_right gathered_nil⟩
  | cons op ops ih =>
    obtain ⟨hop, hrest⟩ := List.forall_mem_cons.1 hops
    have hstrict' : (t.step op).2.permissive = false := (t.permissive_step op).trans hstrict
    have hstep : p ∈ (t.step op).2.index ↔ p ∈ t.index ∨ t.Gathers op p := by
      rw [mem_index_step hstrict op p]; simp [hop]
    rw [steps_cons, ih hstrict' hrest, hstep, gathered_cons, or_assoc]

/-- Every run ends with operations that are no commits, right after a commit or from its start. -/
theorem exists_last_commit (ops : List Operation) :
    ∃ before between, ops = before ++ between ∧ (∀ op ∈ between, op.commits = false) ∧
      (before = [] ∨ ∃ front op, before = front ++ [op] ∧ op.commits = true) := by
  induction ops using List.reverseRec with
  | nil => exact ⟨[], [], rfl, by simp, .inl rfl⟩
  | append_singleton ops op ih =>
    obtain ⟨before, between, rfl, hbetween, hbefore⟩ := ih
    cases hop : op.commits with
    | true => exact ⟨before ++ between ++ [op], [], by simp, by simp, .inr ⟨_, op, rfl, hop⟩⟩
    | false =>
      refine ⟨before, between ++ [op], by simp, fun op' hop' => ?_, hbefore⟩
      rcases List.mem_append.1 hop' with hin | hin
      · exact hbetween op' hin
      · rw [List.mem_singleton.1 hin]; exact hop

/-- **Where an invocation was recorded**: by the operation at its place in the run, as the recorder
was at that point. -/
theorem recorded_at {earlier later : List Invocation} {i : Invocation}
    (h : (t.steps ops).2.calls = t.calls ++ (earlier ++ i :: later)) :
    ∃ pre op post, ops = pre ++ op :: post ∧ pre.length = earlier.length ∧
      i = (t.steps pre).2.invocation op := by
  induction ops generalizing t earlier with
  | nil =>
    have hlen := congrArg List.length h
    simp only [List.length_append, List.length_cons] at hlen
    have hnil : (t.steps []).2.calls.length = t.calls.length := rfl
    omega
  | cons op ops ih =>
    obtain ⟨is, hcalls, -⟩ := (t.step op).2.steps_calls ops
    rw [steps_cons] at h
    have hfirst : t.invocation op :: is = earlier ++ i :: later := by
      rw [hcalls, (t.step_records op).1, List.append_assoc] at h
      exact List.append_cancel_left h
    cases earlier with
    | nil =>
      obtain ⟨hi, -⟩ := List.cons.inj hfirst
      exact ⟨[], op, ops, rfl, rfl, hi.symm⟩
    | cons e earlier =>
      obtain ⟨rfl, his⟩ := List.cons.inj hfirst
      rw [his] at hcalls
      obtain ⟨pre, op', post, hops, hlen, hi⟩ := ih hcalls
      exact ⟨op :: pre, op', post, by rw [hops]; rfl, by simp [hlen], hi⟩

/-! ## The books -/

/-- **The books of a recorder after a run**, from the state that it was set up in. The working tree
and the index hold files of the recorder only; its branch is one that it knows. Whatever operation
comes next, the working tree does not grow, one invocation is added to the record, and a path that
is removed now is not removed again. The list of a recorded commit is in order, without
repetitions, holds files of the recorder only, and these are the paths that were staged or removed
since the commit before it, or since the start. -/
structure Books (t : Recorder) (ops : List Operation) : Prop where
  worktree : ∀ p ∈ (t.steps ops).2.worktree, p ∈ t.worktree
  index : ∀ p ∈ (t.steps ops).2.index, p ∈ t.worktree
  current : ∀ branch, (t.steps ops).2.current = some branch → branch ∈ (t.steps ops).2.branches
  shrinks : ∀ op, ∀ p ∈ ((t.steps ops).2.step op).2.worktree, p ∈ (t.steps ops).2.worktree
  records : ∀ op, ∃ i : Invocation, i.operation = op ∧
    ((t.steps ops).2.step op).2.calls = (t.steps ops).2.calls ++ [i]
  once : ∀ path later, ((t.steps ops).2.remove path).1 = .success →
    ((t.steps (ops ++ .remove path :: later)).2.remove path).1 ≠ .success
  commits : ∀ earlier message stamp allowEmpty staged later,
    (t.steps ops).2.calls = earlier ++ .commit message stamp allowEmpty staged :: later →
      staged.Pairwise (· < ·) ∧ (∀ p ∈ staged, p ∈ t.worktree) ∧
      ∃ before between after,
        ops = before ++ (between ++ .commit message stamp allowEmpty :: after) ∧
        before.length + between.length = earlier.length ∧
        (∀ op ∈ between, op.commits = false) ∧
        (before = [] ∨ ∃ front op, before = front ++ [op] ∧ op.commits = true) ∧
        ∀ p, p ∈ staged ↔ (t.steps before).2.Gathered between p

/-- A path that was removed is not in the working tree any more. -/
theorem removed_once (hstrict : t.permissive = false) (ops later : List Operation) (path : String) :
    ((t.steps (ops ++ .remove path :: later)).2.remove path).1 ≠ .success := by
  intro hok
  rw [steps_append, steps_cons, success_remove] at hok
  have hstrict' : (((t.steps ops).2.step (.remove path)).2.steps later).2.permissive = false := by
    rw [permissive_steps, permissive_step, permissive_steps, hstrict]
  have hthere := (hasPath_strict hstrict').1 hok
  have hafter := worktree_steps _ later path hthere
  exact (((t.steps ops).2.mem_worktree_step (.remove path) path).1 hafter).2 rfl

/-- **The index at a commit** is what was gathered since the commit before it, or since the start. -/
theorem commit_takes_gathered (h : t.Built) (hstrict : t.permissive = false)
    {before between : List Operation} (hbetween : ∀ op ∈ between, op.commits = false)
    (hbefore : before = [] ∨ ∃ front op, before = front ++ [op] ∧ op.commits = true) :
    p ∈ (t.steps (before ++ between)).2.index ↔ (t.steps before).2.Gathered between p := by
  have hsound : Sound t.worktree (t.steps before).2 := (h.sound hstrict).steps before
  have hempty : p ∉ (t.steps before).2.index := by
    rcases hbefore with rfl | ⟨front, op, rfl, hop⟩
    · show p ∉ t.index
      rw [h.unused.1]; exact List.not_mem_nil
    · have hfront : Sound t.worktree (t.steps front).2 := (h.sound hstrict).steps front
      rw [steps_append]
      show p ∉ ((t.steps front).2.step op).2.index
      rw [mem_index_step hfront.strict]
      rintro (⟨hno, -⟩ | hgathers)
      · rw [hop] at hno; cases hno
      · exact not_gathers_of_commits hop hgathers
  rw [steps_append, mem_index_steps hsound.strict hbetween]
  simp [hempty]

/-- **A recorder keeps its books**, whatever is asked of it. Set one up that is not permissive, with
any files, branches and failing steps, and perform any operations: at every point the books are in
order. -/
theorem books_kept (h : t.Built) (hstrict : t.permissive = false) (ops : List Operation) :
    Books t ops := by
  have hsound : Sound t.worktree (t.steps ops).2 := (h.sound hstrict).steps ops
  refine ⟨hsound.worktree, hsound.index, hsound.current, ?_, ?_, ?_, ?_⟩
  · intro op p hp
    exact (((t.steps ops).2.mem_worktree_step op p).1 hp).1
  · intro op
    exact ⟨_, operation_invocation _ op, ((t.steps ops).2.step_records op).1⟩
  · intro path later _
    exact removed_once hstrict ops later path
  · intro earlier message stamp allowEmpty staged later hcalls
    have hat : (t.steps ops).2.calls =
        t.calls ++ (earlier ++ .commit message stamp allowEmpty staged :: later) := by
      rw [hcalls, h.unused.2, List.nil_append]
    obtain ⟨pre, op, post, hops, hlen, hi⟩ := recorded_at hat
    -- the invocation tells its operation, and the list is the index at that point
    have hop : op = .commit message stamp allowEmpty := by
      rw [← operation_invocation (t.steps pre).2 op, ← hi]; rfl
    subst hop
    have hstaged : staged = (t.steps pre).2.index.toList := by
      simp only [invocation, Invocation.commit.injEq, true_and] at hi
      exact hi
    have hpre : Sound t.worktree (t.steps pre).2 := (h.sound hstrict).steps pre
    obtain ⟨before, between, hsplit, hbetween, hbefore⟩ := exists_last_commit pre
    refine ⟨?_, ?_, before, between, post, ?_, ?_, hbetween, hbefore, ?_⟩
    · rw [hstaged]; exact (t.steps pre).2.index.sorted
    · rw [hstaged]; exact hpre.index
    · rw [hops, hsplit, List.append_assoc]
    · rw [← hlen, hsplit, List.length_append]
    · intro p
      rw [hstaged, hsplit]
      exact commit_takes_gathered h hstrict hbetween hbefore

/-- Two commits that fail, a path that is removed twice, and one that is staged before it is
removed: the second commit takes up what came after the first. -/
theorem books_kept_failing :
    let t : Recorder :=
      ((({} : Recorder).withFiles ["b", "a", "c"]).withBranch "main").withFailing "commit"
    let stamp : Stamp := ⟨(⟨"Ada", "a@x"⟩ : Identity), "2025-10-18 09:00:00"⟩
    let ops : List Operation :=
      [.stage ["c", "x", "a"], .commit "one" stamp false, .stage ["b"], .remove "b", .remove "b",
        .switch "side", .stageAllExcept ["c"], .commit "two" stamp false]
    Books t ops ∧ (t.steps ops).2.calls.filterMap Invocation.staged? = [["a", "c"], ["a", "b"]] := by
  intro t stamp ops
  have hbuilt : t.Built := (((Built.new false).withFiles _).withBranch _).withFailing _
  exact ⟨books_kept hbuilt rfl ops, by decide +kernel⟩

end Recorder

end Backdate
