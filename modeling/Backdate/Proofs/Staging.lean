import Backdate.Proofs.Recorded

/-!
# What a commit takes up

The index of a recorder is filled by the preparations of an event and used up by
its commit. So nothing is left in it between events, whatever became of them, and
what a commit takes up is a matter of its own event and of the paths that were
there when it began (`index_never_leaks`).

* `mem_index_prepared`: the index after the preparations, kind by kind. Removals
  change the very paths that they ask for, so they are followed one by one
  (`mem_index_removals`).
* `event_index`, `event_commits`: one event; the rest is an induction over events.
-/

namespace Backdate

open Calendar

namespace Recorder

variable {t : Recorder} {r : Replayer} {e : Event} {m : Moment}

/-! ## New recorders -/

/-- A recorder that was set up and not used yet. -/
inductive Built : Recorder → Prop
  | new (permissive : Bool) : Built { permissive := permissive }
  | withFiles {t : Recorder} (h : Built t) (paths : List String) : Built (t.withFiles paths)
  | withBranch {t : Recorder} (h : Built t) (branch : String) : Built (t.withBranch branch)
  | withFailing {t : Recorder} (h : Built t) (step : String) : Built (t.withFailing step)

theorem Built.unused (h : Built t) : t.index = ∅ ∧ t.calls = [] := by
  induction h with
  | new permissive => exact ⟨rfl, rfl⟩
  | withFiles _ _ ih => exact ih
  | withBranch _ _ ih => exact ih
  | withFailing _ _ ih => exact ih

/-! ## Preparations -/

/-- **What the commit of an event takes up**, by the recorder as it is when the event begins: all
paths that are there, save the excluded ones, or those of the listed paths that are there. A
permissive recorder takes every listed path to be there. -/
def Takes (r : Replayer) (e : Event) (t : Recorder) (path : String) : Prop :=
  match e.action with
  | .change _ .nothing => False
  | .change _ .everything => path ∈ t.worktree ∧ path ∉ r.excluded
  | .change _ (.listed paths) => path ∈ paths ∧ (t.permissive = true ∨ path ∈ t.worktree)
  | .deletion _ paths => path ∈ paths ∧ (t.permissive = true ∨ path ∈ t.worktree)
  | .merge _ => False
  | .tag .. => False

theorem hasPath_iff {path : String} :
    t.hasPath path = true ↔ t.permissive = true ∨ path ∈ t.worktree := by
  simp [hasPath]

/-- Going to a branch touches no path. -/
theorem switch_keeps (t : Recorder) (branch : String) :
    (t.switch branch).2.index = t.index ∧ (t.switch branch).2.worktree = t.worktree ∧
      (t.switch branch).2.permissive = t.permissive := by
  simp only [switch]
  split <;> exact ⟨rfl, rfl, rfl⟩

theorem index_stage (t : Recorder) (paths : List String) :
    (t.stage paths).2.index = t.index.insertMany (paths.filter t.hasPath) := by
  simp only [stage]
  split <;> rfl

/-- A removal takes a path that is there out of the working tree and into the index. -/
theorem mem_remove (t : Recorder) (path p : String) :
    (p ∈ (t.remove path).2.index ↔ p ∈ t.index ∨ (p = path ∧ t.hasPath path = true)) ∧
      (p ∈ (t.remove path).2.worktree ↔ p ∈ t.worktree ∧ p ≠ path) ∧
      (t.remove path).2.permissive = t.permissive := by
  have hrecord : (t.record (.remove path)).hasPath path = t.hasPath path := rfl
  simp only [remove, hrecord]
  cases hpath : t.hasPath path with
  | true =>
    refine ⟨?_, ?_, rfl⟩
    · show p ∈ t.index.insert path ↔ _
      rw [Names.mem_insert, or_comm]
      simp
    · show p ∈ t.worktree.filter (· != path) ↔ _
      rw [Names.mem_filter]
      simp
  | false =>
    -- a path that is not there is not in the working tree either
    have hgone : path ∉ t.worktree := fun hin => by
      rw [hasPath_iff.2 (.inr hin)] at hpath; cases hpath
    refine ⟨by simp [record], ⟨fun hin => ⟨hin, ?_⟩, fun hin => hin.1⟩, rfl⟩
    rintro rfl
    exact hgone hin

/-- **Removals in turn**: each listed path that was there at the start is in the index at the end. A
path that is listed again is gone by then, and is in the index already. -/
theorem mem_index_removals (t : Recorder) (paths : List String) (p : String) :
    p ∈ (t.steps (paths.map .remove)).2.index ↔
      p ∈ t.index ∨ (p ∈ paths ∧ t.hasPath p = true) := by
  induction paths generalizing t with
  | nil => simp [steps]
  | cons path paths ih =>
    obtain ⟨hindex, hworktree, hpermissive⟩ := t.mem_remove path p
    have hlater : (t.remove path).2.hasPath p = true ↔
        t.permissive = true ∨ p ∈ t.worktree ∧ p ≠ path := by
      rw [hasPath_iff, hworktree, hpermissive]
    have hrest := ih (t.remove path).2
    rw [hindex, hlater] at hrest
    rw [List.map_cons, List.mem_cons]
    refine Iff.trans hrest ?_
    by_cases hp : p = path
    · subst hp
      rw [hasPath_iff]
      constructor
      · rintro ((hin | ⟨-, hthere⟩) | ⟨-, hthere⟩)
        · exact .inl hin
        · exact .inr ⟨.inl rfl, hthere⟩
        · exact .inr ⟨.inl rfl, hthere.imp_right And.left⟩
      · rintro (hin | ⟨-, hthere⟩)
        · exact .inl (.inl hin)
        · exact .inl (.inr ⟨rfl, hthere⟩)
    · simp [hp, hasPath_iff]

/-- **The index after the preparations**, kind by kind. -/
theorem mem_index_prepared (h : t.index = ∅) (path : String) :
    path ∈ (t.steps (r.preparations e)).2.index ↔ Takes r e t path := by
  have hempty : path ∉ t.index := by rw [h]; exact List.not_mem_nil
  unfold Takes Replayer.preparations
  rcases e with ⟨branch, author, time, action⟩
  cases action with
  | change message paths =>
    cases paths with
    | nothing => exact iff_of_false hempty id
    | everything =>
      show path ∈ t.index.insertMany _ ↔ _
      rw [Names.mem_insertMany]
      show path ∈ t.worktree.filter _ ∨ _ ↔ _
      rw [Names.mem_filter]
      simp [hempty]
    | listed paths =>
      show path ∈ (t.stage paths).2.index ↔ _
      rw [index_stage, Names.mem_insertMany, List.mem_filter, hasPath_iff]
      simp [hempty]
  | deletion message paths =>
    show path ∈ (t.steps (paths.map .remove)).2.index ↔ _
    rw [mem_index_removals, hasPath_iff]
    simp [hempty]
  | merge source => exact iff_of_false hempty id
  | tag name message => exact iff_of_false hempty id

/-! ## One event -/

/-- What is there when an event begins is what is there when it prepares. -/
theorem takes_switch (path : String) :
    Takes r e (t.switch e.branch).2 path ↔ Takes r e t path := by
  obtain ⟨-, hworktree, hpermissive⟩ := t.switch_keeps e.branch
  unfold Takes
  rw [hworktree, hpermissive]

/-- **An event leaves nothing in the index**, whatever becomes of it. -/
theorem event_index (h : t.index = ∅) : (event r e m t).2.index = ∅ := by
  have hswitch : (t.switch e.branch).2.index = ∅ := (t.switch_keeps e.branch).1.trans h
  unfold event
  by_cases hok : (t.switch e.branch).1.isSuccess = true
  · simp only [if_pos hok]
    -- a commit uses the index up, and without one nothing is prepared
    rcases e with ⟨branch, author, time, action⟩
    cases action with
    | change message paths => rfl
    | deletion message paths => rfl
    | merge source => exact hswitch
    | tag name message => exact hswitch
  · simp only [if_neg hok]
    exact hswitch

end Recorder

/-- The index that went into a recorded commit. -/
def Invocation.staged? : Invocation → Option (List String)
  | .commit _ _ _ staged => some staged
  | .switch .. | .stage _ | .stageAllExcept _ | .remove _ | .merge .. | .tag .. => none

theorem Invocation.staged?_of_prepares {i : Invocation} (h : i.operation.prepares = true) :
    i.staged? = none := by
  cases i with
  | commit message stamp allowEmpty staged => cases h
  | switch branch created => rfl
  | stage paths => rfl
  | stageAllExcept excluded => rfl
  | remove path => rfl
  | merge source message stamp => rfl
  | tag name message stamp => rfl

theorem Invocation.filterMap_staged? (i : Invocation) :
    [i].filterMap Invocation.staged? = i.staged?.toList := by
  cases hi : i.staged? with
  | none => rw [List.filterMap_cons_none hi]; rfl
  | some staged => rw [List.filterMap_cons_some hi]; rfl

namespace Recorder

variable {t : Recorder} {r : Replayer} {e : Event} {m : Moment}

/-- The operation that writes is recorded with the index if it is a commit. -/
theorem staged?_writing (t : Recorder) (e : Event) (stamp : Stamp) :
    (t.invocation (e.writing stamp)).staged? =
      if e.kind = .change ∨ e.kind = .deletion then some t.index.toList else none := by
  rcases e with ⟨branch, author, time, action⟩
  cases action <;> rfl

/-- **An event records at most one commit**, and it takes up what it should. -/
theorem event_commits (h : t.index = ∅) :
    ∃ is, (event r e m t).2.calls = t.calls ++ is ∧
      (∀ staged ∈ is.filterMap Invocation.staged?, staged.Pairwise (· < ·) ∧
        ∀ path, path ∈ staged ↔ Takes r e t path) ∧
      ("checkout" ∉ t.failing → e.kind = .change ∨ e.kind = .deletion →
        (is.filterMap Invocation.staged?).length = 1) := by
  have hswitch : (t.switch e.branch).2.calls = t.calls ++ [t.invocation (.switch e.branch)] :=
    (t.step_records (.switch e.branch)).1
  unfold event
  by_cases hok : (t.switch e.branch).1.isSuccess = true
  · simp only [if_pos hok]
    obtain ⟨prepared, hprepared, hops⟩ := (t.switch e.branch).2.steps_calls (r.preparations e)
    generalize ht₂ : ((t.switch e.branch).2.steps (r.preparations e)).2 = t₂ at hprepared
    -- neither the switch nor a preparation is a commit
    have hquiet : prepared.filterMap Invocation.staged? = [] := by
      refine List.filterMap_eq_nil_iff.2 fun i hi => Invocation.staged?_of_prepares ?_
      refine r.prepares_preparations e _ ?_
      rw [← hops]; exact List.mem_map_of_mem hi
    let i := t₂.invocation (e.writing (r.stamp e.author m))
    have hcommits : ([t.invocation (.switch e.branch)] ++ prepared ++ [i]).filterMap
        Invocation.staged? = i.staged?.toList := by
      rw [List.filterMap_append, List.filterMap_append, hquiet, Invocation.filterMap_staged?,
        Invocation.filterMap_staged?]
      rfl
    rw [t₂.staged?_writing] at hcommits
    refine ⟨[t.invocation (.switch e.branch)] ++ prepared ++ [i], ?_, ?_, fun _ hkind => ?_⟩
    · rw [(t₂.step_records _).1, hprepared, hswitch]
      simp only [List.append_assoc]
      rfl
    · intro staged hstaged
      rw [hcommits] at hstaged
      split at hstaged
      · obtain rfl := List.mem_singleton.1 hstaged
        have hindex : (t.switch e.branch).2.index = ∅ := (t.switch_keeps e.branch).1.trans h
        refine ⟨t₂.index.sorted, fun path => ?_⟩
        show path ∈ t₂.index ↔ _
        rw [← ht₂, mem_index_prepared hindex, takes_switch]
      · exact absurd hstaged List.not_mem_nil
    · rw [hcommits, if_pos hkind]; rfl
  · simp only [if_neg hok]
    refine ⟨_, hswitch, ?_, fun hfree => absurd (isSuccess_switch e.branch hfree) hok⟩
    intro staged hstaged
    exact absurd hstaged List.not_mem_nil

/-! ## All events -/

/-- **Nothing leaks from one event into the next.** Set up a recorder in any way and apply events to
it in turn; a replay is a first part of this. Before and after each of them the index is empty,
whatever became of it. What is recorded is recorded event by event, and the list of a commit is in
order, without repetitions, and holds just what the commit of its event takes up. A change or a
deletion with a moment that can go to its branch records one commit. -/
theorem index_never_leaks (h : t.Built) (r : Replayer) (es : List Event) :
    (r.attempts es t).map (·.event) = es ∧ r.episodes es t <+: r.attempts es t ∧
    (r.afterAll es t).calls = (r.attempts es t).flatMap recorded ∧
    ∀ ep ∈ r.attempts es t, ep.before.index = ∅ ∧ ep.after.index = ∅ ∧
      (∀ staged ∈ (recorded ep).filterMap Invocation.staged?, staged.Pairwise (· < ·) ∧
        ∀ path, path ∈ staged ↔ Takes r ep.event ep.before path) ∧
      ((∃ m, r.anchor.resolve ep.event.time = .ok m) → "checkout" ∉ ep.before.failing →
        ep.event.kind = .change ∨ ep.event.kind = .deletion →
        ((recorded ep).filterMap Invocation.staged?).length = 1) := by
  obtain ⟨hindex, hcalls⟩ := h.unused
  have hkept : ∀ e (t : Recorder), t.index = ∅ → (r.episode e t).after.index = ∅ := by
    intro e t ht
    rcases episode_cases r e t with ⟨_, -, hafter⟩ | ⟨m, notes, -, hafter⟩
    · rw [hafter]; exact ht
    · rw [hafter]; exact event_index ht
  refine ⟨r.attempts_events es t, r.episodes_prefix_attempts es t, ?_, fun ep hep => ?_⟩
  · have hlog := Replayer.afterAll_log Recorder.calls (calls_grow r) es t
    rw [hcalls, List.nil_append] at hlog
    exact hlog
  obtain ⟨heq, hbefore, hafter⟩ :=
    Replayer.attempts_of_kept (P := fun t : Recorder => t.index = ∅) hindex hkept ep hep
  refine ⟨hbefore, hafter, ?_⟩
  rcases episode_cases r ep.event ep.before with ⟨why, hm, hsame⟩ | ⟨m, notes, hm, hsame⟩ <;>
    rw [← heq] at hsame
  · -- without a moment nothing is recorded
    have hnone : recorded ep = [] := recorded_eq (by rw [hsame, List.append_nil])
    rw [hnone]
    refine ⟨fun _ hstaged => absurd hstaged List.not_mem_nil, ?_⟩
    rintro ⟨m, hm'⟩
    rw [hm] at hm'; cases hm'
  · obtain ⟨is, his, hcommits, hone⟩ := event_commits (r := r) (e := ep.event) (m := m) hbefore
    have hnew : recorded ep = is := recorded_eq (by rw [hsame]; exact his)
    rw [hnew]
    exact ⟨hcommits, fun _ => hone⟩

/-- Commits are made to fail and paths are listed twice: still each commit has its own paths. -/
theorem index_never_leaks_failing :
    let r : Replayer :=
      ⟨⟨⟨2025, 10, 18, by decide⟩, ⟨9, 0, 0, by decide, by decide, by decide⟩⟩,
        ⟨⟨"Ada", "a@x"⟩, ⟨"Grace", "g@x"⟩⟩, ["history.toml"]⟩
    let es : List Event :=
      [⟨"main", .first, ⟨0, 9, 0⟩, .deletion "less" ["b", "x", "a", "b"]⟩,
       ⟨"main", .second, ⟨0, 9, 0⟩, .change "more" (.listed ["c", "b", "c"])⟩,
       ⟨"main", .first, ⟨0, 9, 0⟩, .change "all" .everything⟩]
    let t : Recorder :=
      (({} : Recorder).withFiles ["a", "b", "c", "d", "history.toml"]).withFailing "commit"
    (r.afterAll es t).calls.filterMap Invocation.staged? = [["a", "b"], ["c"], ["c", "d"]] ∧
      ∀ ep ∈ r.attempts es t, ep.before.index = ∅ ∧ ep.after.index = ∅ := by
  intro r es t
  have hbuilt : t.Built := ((Built.new false).withFiles _).withFailing "commit"
  obtain ⟨-, -, -, heach⟩ := index_never_leaks hbuilt r es
  exact ⟨by decide +kernel, fun ep hep => ⟨(heach ep hep).1, (heach ep hep).2.1⟩⟩

end Recorder

end Backdate
