import Backdate.Proofs.Bookkeeping

/-!
# What is left in the index

Staging everything adds to the index what is there and not excluded, and takes
nothing out of it. So an excluded path that was staged or removed before, and not
committed since, stays in the index, and a commit that follows takes it up
(`excluded_left_iff`).

* `pending_snoc`: what one operation more does to the paths that are waiting for
  a commit;
* `mem_index_iff_pending`: by induction from the last operation back, these are the
  paths in the index, whatever was asked of the recorder.
-/

namespace Backdate

namespace Recorder

variable {t : Recorder} {ops : List Operation} {p : String}

/-- **A path waits for a commit** after a run: one of its operations put the path into the index, and
none after that was a commit. -/
def Pending (t : Recorder) (ops : List Operation) (p : String) : Prop :=
  ∃ before op after, ops = before ++ op :: after ∧ (t.steps before).2.Puts op p ∧
    ∀ later ∈ after, later.commits = false

theorem not_pending_nil : ¬ t.Pending [] p := by
  rintro ⟨before, op, after, heq, -⟩
  exact absurd heq (by simp)

/-- **One operation more** keeps what is waiting, unless it is a commit, and adds what it puts into the
index. -/
theorem pending_snoc (t : Recorder) (ops : List Operation) (op : Operation) (p : String) :
    t.Pending (ops ++ [op]) p ↔
      (op.commits = false ∧ t.Pending ops p) ∨ (t.steps ops).2.Puts op p := by
  constructor
  · rintro ⟨before, first, after, heq, hputs, hafter⟩
    rcases split_snoc heq with ⟨rfl, rfl, rfl⟩ | ⟨middle, rfl, hops⟩
    · exact .inr hputs
    · rw [List.forall_mem_append] at hafter
      exact .inl ⟨hafter.2 op List.mem_cons_self, before, first, middle, hops, hputs, hafter.1⟩
  · rintro (⟨hop, before, first, after, rfl, hputs, hafter⟩ | hputs)
    · refine ⟨before, first, after ++ [op], by simp, hputs, ?_⟩
      rw [List.forall_mem_append]
      exact ⟨hafter, fun later hlater => by rw [List.mem_singleton.1 hlater]; exact hop⟩
    · exact ⟨ops, op, [], rfl, hputs, fun later hlater => absurd hlater List.not_mem_nil⟩

/-- **The index holds the paths that wait for a commit**, if it was empty at the start. -/
theorem mem_index_iff_pending (h : t.index = ∅) (ops : List Operation) (p : String) :
    p ∈ (t.steps ops).2.index ↔ t.Pending ops p := by
  induction ops using List.reverseRec with
  | nil =>
    refine iff_of_false ?_ not_pending_nil
    show p ∉ t.index
    rw [h]; exact List.not_mem_nil
  | append_singleton ops op ih =>
    have hlast : (t.steps (ops ++ [op])).2 = ((t.steps ops).2.step op).2 := steps_append t ops [op]
    rw [hlast, mem_index_puts, pending_snoc, ih]

/-- A commit records the index as it stands. -/
theorem calls_commit (t : Recorder) (message : String) (stamp : Stamp) (allowEmpty : Bool) :
    (t.commit message stamp allowEmpty).2.calls =
      t.calls ++ [.commit message stamp allowEmpty t.index.toList] :=
  (t.step_records (.commit message stamp allowEmpty)).1

/-- **When staging everything leaves excluded paths out.** Set a recorder up in any way, ask anything
of it, and then have everything staged. All that is in the working tree and not excluded is in the
index after that, together with what was waiting for a commit. So no excluded path is in the index,
and a commit that follows records none, if and only if no excluded path was waiting. -/
theorem excluded_left_iff (h : t.Built) (ops : List Operation) (excluded : List String) :
    let before := (t.steps ops).2
    let after := (t.steps (ops ++ [.stageAllExcept excluded])).2
    (∀ p, p ∈ after.index ↔ (p ∈ before.worktree ∧ p ∉ excluded) ∨ t.Pending ops p) ∧
    (∀ p ∈ after.worktree, p ∉ excluded → p ∈ after.index) ∧
    ((∀ p ∈ excluded, p ∉ after.index) ↔ ∀ p ∈ excluded, ¬ t.Pending ops p) ∧
    ∀ message stamp allowEmpty, ∃ staged,
      (after.commit message stamp allowEmpty).2.calls =
          after.calls ++ [.commit message stamp allowEmpty staged] ∧
        ((∀ p ∈ excluded, p ∉ staged) ↔ ∀ p ∈ excluded, ¬ t.Pending ops p) := by
  intro before after
  have hafter : after = (before.step (.stageAllExcept excluded)).2 := steps_append t ops _
  have hindex : ∀ p, p ∈ after.index ↔ (p ∈ before.worktree ∧ p ∉ excluded) ∨ t.Pending ops p := by
    intro p
    rw [hafter, mem_index_puts, mem_index_iff_pending h.unused.1, or_comm]
    exact or_congr_right (and_iff_right rfl)
  have hout : (∀ p ∈ excluded, p ∉ after.index) ↔ ∀ p ∈ excluded, ¬ t.Pending ops p := by
    refine forall₂_congr fun p hp => not_congr ?_
    rw [hindex]
    exact or_iff_right fun hstaged => hstaged.2 hp
  refine ⟨hindex, fun p hp hkept => ?_, hout, fun message stamp allowEmpty => ?_⟩
  · have hsame : after.worktree = before.worktree := by rw [hafter]; rfl
    rw [hsame] at hp
    exact (hindex p).2 (.inl ⟨hp, hkept⟩)
  · exact ⟨_, calls_commit after message stamp allowEmpty, hout⟩

/-- The plan's file is staged by name. Then everything but this file is staged, and the commit that
follows records the file all the same. -/
theorem excluded_path_committed :
    let t : Recorder := ({} : Recorder).withFiles ["a.rs", "history.toml"]
    let stamp : Stamp := ⟨(⟨"Ada", "a@x"⟩ : Identity), "2025-10-18 09:00:00"⟩
    let ops : List Operation := [.stage ["history.toml"]]
    let after := (t.steps (ops ++ [.stageAllExcept ["history.toml"]])).2
    (¬ ∀ p ∈ ["history.toml"], p ∉ after.index) ∧
      (after.commit "m" stamp true).2.calls.getLast? =
        some (.commit "m" stamp true ["a.rs", "history.toml"]) := by
  intro t stamp ops after
  have hbuilt : t.Built := (Built.new false).withFiles _
  obtain ⟨-, -, hout, -⟩ := excluded_left_iff hbuilt ops ["history.toml"]
  have hpending : t.Pending ops "history.toml" :=
    ⟨[], .stage ["history.toml"], [], rfl, ⟨List.mem_cons_self, by decide +kernel⟩,
      fun later hlater => absurd hlater List.not_mem_nil⟩
  refine ⟨fun hall => hout.1 hall _ List.mem_cons_self hpending, by decide +kernel⟩

end Recorder

end Backdate
