import Backdate.Proofs.Bookkeeping
import Mathlib.Data.Finset.Card

/-!
# Deletions on a recorder

A deletion removes its paths one by one from the very working tree that it looks
them up in, so a path that is listed twice is there the first time and gone the
second. Each removal that fails is a warning, and the commit at the end may not be
empty. So all that a deletion does is told by the listed paths that were there when
it began (`present`, `deletion_effect`).

* `present_remove`: one removal, by whether its path is there;
* `worktree_removals`, `length_removals`: removals in turn, by induction from any
  recorder.
-/

namespace Backdate

open Calendar

namespace Names

theorem ext {s s' : Names} (h : s.toList = s'.toList) : s = s' := by
  cases s
  cases s'
  cases h
  rfl

theorem filter_filter (s : Names) (f g : String → Bool) :
    (s.filter f).filter g = s.filter fun p => g p && f p :=
  ext List.filter_filter

theorem filter_of_all {s : Names} {f : String → Bool} (h : ∀ p ∈ s, f p = true) : s.filter f = s :=
  ext (List.filter_eq_self.2 h)

end Names

namespace Recorder

variable {t : Recorder} {path : String} {paths : List String}

/-! ## One removal -/

/-- The listed paths that are in the working tree, each of them once. -/
def present (t : Recorder) (paths : List String) : Finset String :=
  paths.toFinset.filter (· ∈ t.worktree)

theorem mem_present {p : String} : p ∈ t.present paths ↔ p ∈ paths ∧ p ∈ t.worktree := by
  unfold present
  rw [Finset.mem_filter, List.mem_toFinset]

/-- A path leaves the working tree, if it is there. -/
theorem worktree_remove (t : Recorder) (path : String) :
    (t.remove path).2.worktree = t.worktree.filter (· != path) := by
  have hrecord : (t.record (.remove path)).hasPath path = t.hasPath path := rfl
  simp only [remove, hrecord]
  cases hpath : t.hasPath path with
  | true => rfl
  | false =>
    show t.worktree = _
    refine (Names.filter_of_all fun p hp => ?_).symm
    rw [bne_iff_ne]
    rintro rfl
    rw [hasPath_iff.2 (.inr hp)] at hpath; cases hpath

/-- **What a removal leaves of the paths that are there**: a path that is removed is not there for
the rest of the list, and one that cannot be removed was not there for any of it. -/
theorem present_remove (t : Recorder) (path : String) (paths : List String) :
    (t.present (path :: paths)).card =
      ((t.remove path).2.present paths).card + if path ∈ t.worktree then 1 else 0 := by
  have hmem : ∀ p, p ∈ (t.remove path).2.present paths ↔ p ∈ t.present paths ∧ p ≠ path := by
    intro p
    rw [mem_present, mem_present, (t.mem_remove path p).2.1, and_assoc]
  split
  · next hin =>
    have hgone : path ∉ (t.remove path).2.present paths := fun h => ((hmem path).1 h).2 rfl
    rw [← Finset.card_insert_of_notMem hgone]
    congr 1
    ext p
    rw [Finset.mem_insert, hmem, mem_present, mem_present, List.mem_cons]
    by_cases hp : p = path
    · subst hp; simp [hin]
    · simp [hp]
  · next hout =>
    rw [Nat.add_zero]
    congr 1
    ext p
    rw [hmem, mem_present, mem_present, List.mem_cons]
    by_cases hp : p = path
    · subst hp; simp [hout]
    · simp [hp]

/-! ## Removals in turn -/

/-- **Removals in turn leave the other paths.** -/
theorem worktree_removals (t : Recorder) (paths : List String) :
    (t.steps (paths.map .remove)).2.worktree = t.worktree.filter fun p => !paths.contains p := by
  induction paths generalizing t with
  | nil => exact (Names.filter_of_all fun _ _ => rfl).symm
  | cons path paths ih =>
    rw [List.map_cons, steps_cons, ih]
    show (t.remove path).2.worktree.filter _ = _
    rw [worktree_remove, Names.filter_filter]
    congr 1
    funext p
    rw [List.contains_cons, Bool.not_or, Bool.and_comm]
    rfl

/-- **Removals in turn warn of all but the paths that were there**, each of which is removed once. -/
theorem length_removals (hstrict : t.permissive = false) (paths : List String) :
    (t.steps (paths.map .remove)).1.length + (t.present paths).card = paths.length := by
  induction paths generalizing t with
  | nil => rfl
  | cons path paths ih =>
    -- the rest of the list is looked up in what this removal leaves
    have hrest := ih ((t.permissive_step (.remove path)).trans hstrict)
    have hwarned : (t.steps ((path :: paths).map .remove)).1 =
        (t.remove path).1.describe.toList ++ ((t.remove path).2.steps (paths.map .remove)).1 := rfl
    rw [hwarned, List.length_append, Outcome.length_describe_toList, isSuccess_remove,
      present_remove, List.length_cons, ← hrest]
    simp only [hasPath_strict hstrict]
    show _ = ((t.remove path).2.steps _).1.length + ((t.remove path).2.present paths).card + 1
    split <;> omega

theorem failing_steps (t : Recorder) (ops : List Operation) :
    (t.steps ops).2.failing = t.failing := by
  induction ops generalizing t with
  | nil => rfl
  | cons op ops ih => exact (ih (t.step op).2).trans (t.step_records op).2

/-! ## The event -/

/-- **The commit after removals** fails if and only if no path that was there is listed. -/
theorem commit_removals (message : String) (stamp : Stamp) (paths : List String)
    (hstrict : t.permissive = false) (hindex : t.index = ∅) (hcommit : "commit" ∉ t.failing) :
    ((t.steps (paths.map .remove)).2.commit message stamp false).1 =
      if ∃ path ∈ paths, path ∈ t.worktree then .success
      else .failure "commit" "nothing to commit, working tree clean" := by
  have hfree : "commit" ∉ (t.steps (paths.map .remove)).2.failing := by
    rw [failing_steps]; exact hcommit
  -- the index holds what was there at the start, however often it is listed
  have hstaged : (t.steps (paths.map .remove)).2.index.toList.isEmpty = false ↔
      ∃ path ∈ paths, path ∈ t.worktree := by
    rw [List.isEmpty_eq_false_iff_exists_mem]
    refine exists_congr fun path => (t.mem_index_removals paths path).trans ?_
    rw [hindex, hasPath_strict hstrict]
    exact or_iff_right List.not_mem_nil
  unfold commit forced
  simp only [record, if_neg hfree, Bool.not_false, Bool.and_true]
  by_cases hthere : ∃ path ∈ paths, path ∈ t.worktree
  · rw [if_pos hthere, hstaged.2 hthere]; rfl
  · rw [if_neg hthere, Bool.eq_true_of_not_eq_false (mt hstaged.1 hthere)]; rfl

/-- A deletion that can go to its branch removes its paths there and commits. -/
theorem event_deletion {r : Replayer} {e : Event} {m : Moment} {message : String}
    (he : e.action = .deletion message paths) (hs : (t.switch e.branch).1.isSuccess = true) :
    event r e m t =
      (e.report m (((t.switch e.branch).2.steps (paths.map .remove)).2.commit message
          (r.stamp e.author m) false).1 ((t.switch e.branch).2.steps (paths.map .remove)).1,
        (((t.switch e.branch).2.steps (paths.map .remove)).2.commit message
          (r.stamp e.author m) false).2) := by
  have hprep : r.preparations e = paths.map .remove := by unfold Replayer.preparations; rw [he]
  have hwriting : e.writing (r.stamp e.author m) = .commit message (r.stamp e.author m) false := by
    unfold Event.writing; rw [he]
  unfold event
  simp only [if_pos hs, hprep, hwriting]
  rfl

/-- **What a deletion does.** Let a recorder that is not permissive have nothing in its index, and let
neither going to a branch nor committing be made to fail. A deletion with a moment is reported. It
succeeds if and only if a listed path is there; each listed path is a warning, save once for each path
that is there; the working tree loses the listed paths and no other. If none of them is there, the
working tree stays as it is and the commit fails. -/
theorem deletion_effect (r : Replayer) {e : Event} {m : Moment} {message : String}
    (he : e.action = .deletion message paths) (hm : r.anchor.resolve e.time = .ok m)
    (hstrict : t.permissive = false) (hindex : t.index = ∅)
    (hcheckout : "checkout" ∉ t.failing) (hcommit : "commit" ∉ t.failing) :
    ∃ report, (r.episode e t).result = .ok report ∧
      (report.succeeded = true ↔ ∃ path ∈ paths, path ∈ t.worktree) ∧
      report.warnings.length + (t.present paths).card = paths.length ∧
      (r.episode e t).after.worktree = t.worktree.filter (fun p => !paths.contains p) ∧
      ((∀ path ∈ paths, path ∉ t.worktree) →
        (r.episode e t).after.worktree = t.worktree ∧
          report.outcome = .failure "commit" "nothing to commit, working tree clean") := by
  obtain ⟨hsameIndex, hsameTree, hsameMode⟩ := t.switch_keeps e.branch
  have hstrict' : (t.switch e.branch).2.permissive = false := hsameMode.trans hstrict
  have hsameFailing : (t.switch e.branch).2.failing = t.failing :=
    (t.step_records (.switch e.branch)).2
  have hcommit' : "commit" ∉ (t.switch e.branch).2.failing := by rw [hsameFailing]; exact hcommit
  -- on its branch the recorder has the paths that it had before
  have houtcome := commit_removals message (r.stamp e.author m) paths hstrict'
    (hsameIndex.trans hindex) hcommit'
  have htree := (t.switch e.branch).2.worktree_removals paths
  have hcount := length_removals hstrict' paths
  have hpresent : (t.switch e.branch).2.present paths = t.present paths := by
    unfold present; rw [hsameTree]
  rw [hpresent] at hcount
  rw [hsameTree] at houtcome htree
  obtain ⟨notes, hrun⟩ := run_apply hm t
  rw [event_deletion he (isSuccess_switch e.branch hcheckout), houtcome] at hrun
  rw [Replayer.episode_eq hrun]
  refine ⟨_, rfl, ?_, hcount, htree, fun hnone => ⟨?_, if_neg ?_⟩⟩
  · show Outcome.isSuccess (if _ then _ else _) = true ↔ _
    split
    · next hthere => exact iff_of_true rfl hthere
    · next hnone => exact iff_of_false Bool.false_ne_true hnone
  · refine htree.trans (Names.filter_of_all fun p hp => ?_)
    have hunlisted : p ∉ paths := fun hlisted => hnone p hlisted hp
    simpa using hunlisted
  · rintro ⟨path, hlisted, hin⟩
    exact hnone path hlisted hin

/-- A path that is listed twice is removed once, and a path that is not there is passed over. -/
theorem repeated_path_removed_once :
    let r : Replayer :=
      ⟨⟨⟨2025, 10, 18, by decide⟩, ⟨9, 0, 0, by decide, by decide, by decide⟩⟩,
        ⟨⟨"Ada", "a@x"⟩, ⟨"Grace", "g@x"⟩⟩, []⟩
    let e : Event := ⟨"main", .first, ⟨0, 9, 0⟩, .deletion "less" ["b", "x", "a", "b"]⟩
    let t : Recorder := ({} : Recorder).withFiles ["a", "b", "c"]
    ∃ report, (r.episode e t).result = .ok report ∧ report.succeeded = true ∧
      report.warnings.length = 2 ∧ (r.episode e t).after.worktree.toList = ["c"] := by
  intro r e t
  obtain ⟨m, hm⟩ : ∃ m, r.anchor.resolve e.time = .ok m := ⟨_, rfl⟩
  obtain ⟨report, hres, hok, hcount, htree, -⟩ := deletion_effect (t := t) r rfl hm rfl rfl
    (by decide) (by decide)
  have hthere : (t.present ["b", "x", "a", "b"]).card = 2 := by decide +kernel
  rw [hthere] at hcount
  refine ⟨report, hres, hok.2 ⟨"b", by decide, by decide +kernel⟩, Nat.add_right_cancel hcount, ?_⟩
  rw [htree]
  decide +kernel

end Recorder

end Backdate
