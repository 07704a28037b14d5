import Backdate.Proofs.Deletions

/-!
# The branches that a recorder knows

A recorder that is asked to go to a branch takes it to be there from then on, also
if going there is made to fail. So it can merge a branch that it never came to, and
it does not record as new a branch that it fails to come to again.

* `mem_branches_steps`: the branches that are known after a run are those of the
  start and those that were asked for, whatever came of it;
* `reached_iff`: those that were come to, on the other hand, are none at all if
  going to a branch is made to fail;
* `branches_told_iff`: merges and records tell which branches were come to, save for
  the branches where these two differ.
-/

namespace Backdate

namespace Recorder

variable {t : Recorder} {op : Operation} {ops : List Operation} {branch : String}

/-! ## Branches that are known -/

/-- **Only being asked for makes a branch known**, and it does so whatever comes of it. -/
theorem mem_branches_step (t : Recorder) (op : Operation) (branch : String) :
    branch ∈ (t.step op).2.branches ↔ branch ∈ t.branches ∨ op = .switch branch := by
  cases op with
  | switch target =>
    have hadded : (t.switch target).2.branches = t.branches.insert target := by
      simp only [switch]; split <;> rfl
    have hname : Operation.switch target = .switch branch ↔ branch = target := by
      rw [Operation.switch.injEq, eq_comm]
    rw [hname, or_comm, ← Names.mem_insert, ← hadded]
    rfl
  | stage paths =>
    have hsame : (t.stage paths).2.branches = t.branches := by simp only [stage]; split <;> rfl
    simp [step, hsame]
  | remove path =>
    have hsame : (t.remove path).2.branches = t.branches := by simp only [remove]; split <;> rfl
    simp [step, hsame]
  | stageAllExcept excluded => simp [step, stageAllExcept, record]
  | commit message stamp allowEmpty => simp [step, commit, record]
  | merge source message stamp => simp [step, merge, record]
  | tag name message stamp => simp [step, tag, record]

/-- **The branches that are known after a run.** -/
theorem mem_branches_steps (t : Recorder) (ops : List Operation) (branch : String) :
    branch ∈ (t.steps ops).2.branches ↔ branch ∈ t.branches ∨ .switch branch ∈ ops := by
  induction ops generalizing t with
  | nil => simp [steps]
  | cons op ops ih =>
    rw [steps_cons, ih, mem_branches_step, List.mem_cons, or_assoc, eq_comm (a := op)]

/-- A merge succeeds if it is not made to fail and its branch is known. -/
theorem success_merge (t : Recorder) (source message : String) (stamp : Stamp) :
    (t.merge source message stamp).1 = .success ↔ "merge" ∉ t.failing ∧ source ∈ t.branches := by
  unfold merge forced record
  by_cases hforced : "merge" ∈ t.failing
  · simp [hforced]
  · by_cases hknown : source ∈ t.branches
    · simp [hforced, hknown]
    · simp [hforced, hknown]

/-- **Where going to a branch was recorded**: by the operation at its place in the run, and as new if
the branch was not known at that point. -/
theorem switched_at {earlier later : List Invocation} {created : Bool}
    (h : (t.steps ops).2.calls = t.calls ++ (earlier ++ .switch branch created :: later)) :
    (∃ post, ops = ops.take earlier.length ++ .switch branch :: post) ∧
      (created = true ↔ branch ∉ t.branches ∧ .switch branch ∉ ops.take earlier.length) := by
  obtain ⟨pre, op, post, hops, hlen, hi⟩ := recorded_at h
  have hop : op = .switch branch := by
    rw [← operation_invocation (t.steps pre).2 op, ← hi]; rfl
  subst hop
  have hpre : ops.take earlier.length = pre := by rw [hops, ← hlen, List.take_left]
  have hcreated : created = decide (branch ∉ (t.steps pre).2.branches) := by
    simp only [invocation, Invocation.switch.injEq, true_and] at hi
    exact hi
  rw [hpre]
  refine ⟨⟨post, hops⟩, ?_⟩
  rw [hcreated, decide_eq_true_eq, mem_branches_steps, not_or]

/-! ## Branches that were come to -/

theorem success_switch (t : Recorder) (branch : String) :
    (t.switch branch).1 = .success ↔ "checkout" ∉ t.failing := by
  by_cases hforced : "checkout" ∈ t.failing
  · simp [switch, forced, record, hforced]
  · simp [switch, forced, record, hforced]

/-- **A run came to a branch**: it was asked to go there, and this was a success at that point. -/
def Reached (t : Recorder) (ops : List Operation) (branch : String) : Prop :=
  ∃ before after, ops = before ++ .switch branch :: after ∧
    ((t.steps before).2.switch branch).1 = .success

theorem reached_iff : t.Reached ops branch ↔ "checkout" ∉ t.failing ∧ .switch branch ∈ ops := by
  have hsame : ∀ before, ((t.steps before).2.switch branch).1 = .success ↔
      "checkout" ∉ t.failing := by
    intro before
    rw [success_switch, failing_steps]
  constructor
  · rintro ⟨before, after, hops, hok⟩
    refine ⟨(hsame before).1 hok, ?_⟩
    rw [hops]
    exact List.mem_append_right before List.mem_cons_self
  · rintro ⟨hfree, hasked⟩
    obtain ⟨before, after, hops⟩ := List.append_of_mem hasked
    exact ⟨before, after, hops, (hsame before).2 hfree⟩

/-! ## What is told of branches -/

/-- After a run, a merge succeeds if it is not made to fail and its branch was there at the start or
was come to. -/
def MergeTold (t : Recorder) (ops : List Operation) (branch : String) : Prop :=
  ∀ message stamp, ((t.steps ops).2.merge branch message stamp).1 = .success ↔
    "merge" ∉ t.failing ∧ (branch ∈ t.branches ∨ t.Reached ops branch)

/-- Wherever a run went to a branch, it is recorded as new if it was not there at the start and had
not been come to before. -/
def CreationTold (t : Recorder) (ops : List Operation) (branch : String) : Prop :=
  ∀ earlier created later,
    (t.steps ops).2.calls = t.calls ++ (earlier ++ .switch branch created :: later) →
      (created = true ↔
        branch ∉ t.branches ∧ ¬ t.Reached (ops.take earlier.length) branch)

/-- A run is asked again to go to a branch. -/
def AskedAgain (ops : List Operation) (branch : String) : Prop :=
  ∃ before after, ops = before ++ .switch branch :: after ∧ .switch branch ∈ before

theorem mergeTold_iff :
    t.MergeTold ops branch ↔
      "merge" ∈ t.failing ∨ "checkout" ∉ t.failing ∨ branch ∈ t.branches ∨
        .switch branch ∉ ops := by
  have hmerge : ∀ message stamp, ((t.steps ops).2.merge branch message stamp).1 = .success ↔
      "merge" ∉ t.failing ∧ (branch ∈ t.branches ∨ .switch branch ∈ ops) := by
    intro message stamp
    rw [success_merge, failing_steps, mem_branches_steps]
  unfold MergeTold
  simp only [hmerge, reached_iff]
  by_cases hforced : "merge" ∈ t.failing
  · simp [hforced]
  by_cases hfail : "checkout" ∈ t.failing
  · by_cases hknown : branch ∈ t.branches
    · simp [hforced, hknown]
    · have hstamp : Nonempty Stamp := ⟨⟨⟨⟨"", ""⟩, ⟨"", ""⟩⟩, ""⟩⟩
      simp [hforced, hfail, hknown]
  · simp [hfail]

/-- A run that is asked again to go to a branch has a second record of it. -/
theorem exists_second_record (h : AskedAgain ops branch) :
    ∃ earlier created later,
      (t.steps ops).2.calls = t.calls ++ (earlier ++ .switch branch created :: later) ∧
        .switch branch ∈ ops.take earlier.length := by
  obtain ⟨before, after, hops, hbefore⟩ := h
  obtain ⟨is, hcalls, his⟩ := t.steps_calls ops
  -- the invocations stand in the order of their operations
  rw [hops] at his
  obtain ⟨earlier, rest, hsplit, hearlier, hrest⟩ := List.map_eq_append_iff.1 his
  obtain ⟨i, later, rfl, hi, -⟩ := List.map_eq_cons_iff.1 hrest
  obtain ⟨created, rfl⟩ : ∃ created, i = .switch branch created := by
    cases i with
    | switch target created =>
      have htarget : target = branch := Operation.switch.inj hi
      exact ⟨created, by rw [htarget]⟩
    | stage paths => cases hi
    | stageAllExcept excluded => cases hi
    | remove path => cases hi
    | commit message stamp allowEmpty staged => cases hi
    | merge source message stamp => cases hi
    | tag name message stamp => cases hi
  refine ⟨earlier, created, later, by rw [hcalls, hsplit], ?_⟩
  have hlen : earlier.length = before.length := by rw [← hearlier, List.length_map]
  rw [hlen, hops, List.take_left]
  exact hbefore

theorem creationTold_iff :
    t.CreationTold ops branch ↔
      "checkout" ∉ t.failing ∨ branch ∈ t.branches ∨ ¬ AskedAgain ops branch := by
  constructor
  · intro htold
    by_contra hno
    simp only [not_or, not_not] at hno
    obtain ⟨hfail, hnew, hagain⟩ := hno
    obtain ⟨earlier, created, later, hcalls, hasked⟩ := exists_second_record (t := t) hagain
    have hunreached : ¬ t.Reached (ops.take earlier.length) branch := by
      rw [reached_iff]
      exact fun h => h.1 hfail
    have hcreated : created = true := (htold _ _ _ hcalls).2 ⟨hnew, hunreached⟩
    exact ((switched_at hcalls).2.1 hcreated).2 hasked
  · intro h earlier created later hcalls
    obtain ⟨⟨post, hops⟩, hcreated⟩ := switched_at hcalls
    rw [hcreated, reached_iff]
    rcases h with hfree | hknown | honce
    · simp [hfree]
    · simp [hknown]
    · have hfirst : .switch branch ∉ ops.take earlier.length := by
        intro hasked
        exact honce ⟨_, post, hops, hasked⟩
      simp [hfirst]

/-- **When a recorder tells which branches were come to.** Whatever branches a recorder has at the
start, whichever steps are made to fail and whatever is asked of it: merges tell whether a branch was
there or come to, and records tell whether it was new, as long as going to a branch is not made to
fail. If it is, a branch that was not there at the start and that the run was asked to go to can be
merged though it was never come to, and from the second time on it is not recorded as new. -/
theorem branches_told_iff (t : Recorder) (ops : List Operation) (branch : String) :
    (t.MergeTold ops branch ↔
      "merge" ∈ t.failing ∨ "checkout" ∉ t.failing ∨ branch ∈ t.branches ∨
        .switch branch ∉ ops) ∧
    (t.CreationTold ops branch ↔
      "checkout" ∉ t.failing ∨ branch ∈ t.branches ∨ ¬ AskedAgain ops branch) :=
  ⟨mergeTold_iff, creationTold_iff⟩

/-- A branch that is asked for twice in vain is merged after that, and is recorded as new only the
first time. -/
theorem failed_checkout_known :
    let t : Recorder := (({} : Recorder).withBranch "main").withFailing "checkout"
    let stamp : Stamp := ⟨(⟨"Ada", "a@x"⟩ : Identity), "2025-10-18 09:00:00"⟩
    let ops : List Operation := [.switch "topic", .switch "topic"]
    ¬ t.Reached ops "topic" ∧ ((t.steps ops).2.merge "topic" "m" stamp).1 = .success ∧
      (t.steps ops).2.calls = [.switch "topic" true, .switch "topic" false] ∧
      ¬ t.MergeTold ops "topic" ∧ ¬ t.CreationTold ops "topic" := by
  intro t stamp ops
  obtain ⟨hmerge, hcreation⟩ := branches_told_iff t ops "topic"
  have hfail : "checkout" ∈ t.failing := by decide +kernel
  have hnew : "topic" ∉ t.branches := by decide +kernel
  have hagain : AskedAgain ops "topic" := ⟨[.switch "topic"], [], rfl, List.mem_cons_self⟩
  refine ⟨fun h => (reached_iff.1 h).1 hfail, by decide +kernel, by decide +kernel, ?_, ?_⟩
  · rw [hmerge]
    simp only [hfail, hnew, not_true, false_or]
    decide +kernel
  · rw [hcreation]
    simp only [hfail, hnew, hagain, not_true, false_or, not_false_eq_true]

end Recorder

end Backdate
