import Backdate.Proofs.Lines
import Backdate.Proofs.Undoing

/-!
# What is told of a failure

An operation that fails rests on one process, and what is told of the failure is
what that process printed. There is one exception: of a merge in conflict only
the lines of standard output that begin with `CONFLICT` are told, and there may
be none (`explained_iff`).

* `does_perform_failed`: the process that an operation rests on, and what is
  made of its reply (`Process.told`);
* `allBlank_told`: when that is blank.
-/

namespace Backdate

/-- Whether a process printed nothing but blanks. -/
def Reply.isSilent (r : Reply) : Bool := Text.allBlank r.output && Text.allBlank r.complaint

theorem Reply.allBlank_detail (r : Reply) : Text.allBlank r.detail = r.isSilent := by
  unfold detail isSilent
  cases h : Text.allBlank r.complaint <;> simp [h]

/-- Whether an operation stages paths, one by one or all at once. -/
def Operation.stages : Operation → Bool
  | .stage _ | .stageAllExcept _ => true
  | .switch _ | .remove _ | .commit .. | .merge .. | .tag .. => false

namespace Process

/-- Whether an operation may rest on a process: not if it only asks whether a branch exists, or
undoes a merge. -/
def decides (p : Process) : Bool := p.call.command != "rev-parse" && !p.call.undoes

/-- What is made of the reply of a failed process. -/
def told (p : Process) : String :=
  if p.inConflict then Text.joinLines (Git.conflicts p.reply.output) else p.reply.detail

/-- **A failed process of which nothing is told**: it printed nothing but blanks, or it is a merge in
conflict and no line of its standard output begins with `CONFLICT`. -/
def Untold (p : Process) : Prop :=
  p.reply.isSilent = true ∨
    (p.inConflict = true ∧ ∀ l ∈ Text.lines p.reply.output.toList, ¬ "CONFLICT".toList <+: l)

theorem told_of_command {p : Process} (h : p.call.command ≠ "merge") : p.told = p.reply.detail := by
  have hno : ¬ p.inConflict = true := fun hp => not_unsettled_of_command h (.inl hp)
  unfold told
  rw [if_neg hno]

theorem told_of_conflict {p : Process} (h : p.inConflict = true) :
    p.told = Text.joinLines (Git.conflicts p.reply.output) := if_pos h

end Process

namespace Git

variable {op : Operation} {g g' : Git} {ps : List Process}

/-- The process that an operation rests on: the last of those that may decide it. -/
def deciding (ps : List Process) : Option Process := (ps.filter Process.decides).getLast?

/-! ## When nothing is told -/

theorem conflicts_eq_nil_iff (output : String) :
    conflicts output = [] ↔ ∀ l ∈ Text.lines output.toList, ¬ "CONFLICT".toList <+: l := by
  simp [conflicts, List.isPrefixOf_iff_prefix]

/-- A line that begins with `CONFLICT` is not blank. -/
theorem not_allBlank_of_mem_conflicts {output line : String} (h : line ∈ conflicts output) :
    Text.allBlank line = false := by
  obtain ⟨l, hl, rfl⟩ := List.mem_map.1 h
  obtain ⟨rest, rfl⟩ := List.isPrefixOf_iff_prefix.1 (List.mem_filter.1 hl).2
  have hfirst : "CONFLICT".toList.all Text.isBlank = false := by decide
  unfold Text.allBlank
  rw [String.toList_ofList, List.all_append, hfirst, Bool.false_and]

/-- The lines on conflicts are blank if there are none. -/
theorem allBlank_conflicts (output : String) :
    Text.allBlank (Text.joinLines (conflicts output)) = true ↔ conflicts output = [] := by
  rw [Text.allBlank_joinLines]
  cases h : conflicts output with
  | nil => exact iff_of_true rfl rfl
  | cons line more =>
    have hline := not_allBlank_of_mem_conflicts (h ▸ List.mem_cons_self)
    simp [hline]

/-- A silent process tells of no conflict. -/
theorem conflicts_eq_nil_of_silent {r : Reply} (h : r.isSilent = true) :
    conflicts r.output = [] := by
  have hblank : Text.allBlank r.output = true := (Bool.and_eq_true_iff.1 h).1
  rw [conflicts_eq_nil_iff]
  rintro l hl ⟨rest, rfl⟩
  have hfirst : "CONFLICT".toList.all Text.isBlank = false := by decide
  have hline := Text.blank_of_mem_lines hblank hl
  rw [List.all_append, hfirst] at hline
  cases hline

/-- **When nothing is told of a failed process.** -/
theorem allBlank_told (p : Process) : Text.allBlank p.told = true ↔ p.Untold := by
  unfold Process.Untold
  by_cases hc : p.inConflict = true
  · rw [Process.told_of_conflict hc, allBlank_conflicts, ← conflicts_eq_nil_iff]
    simp only [hc, true_and]
    exact ⟨.inr, fun h => h.elim conflicts_eq_nil_of_silent id⟩
  · have htold : p.told = p.reply.detail := if_neg hc
    rw [htold, Reply.allBlank_detail]
    simp [hc]

/-! ## What an operation rests on -/

theorem does_run_failed {step step' detail : String} {c : Call} (hc : c.command ≠ "merge")
    (hverify : c.command ≠ "rev-parse")
    (h : Does (run step c) g ps (.ok (.failure step' detail)) g') :
    ∃ p, deciding ps = some p ∧ p.reply.succeeded = false ∧ detail = p.told := by
  obtain ⟨reply, rfl, ho⟩ := does_run_ok h
  have hdecides : Process.decides ⟨c, reply⟩ = true := by
    have hundoes : c.undoes = false := Bool.eq_false_iff.2 (mt Call.command_of_undoes hc)
    simp [Process.decides, hverify, hundoes]
  refine ⟨⟨c, reply⟩, by simp [deciding, hdecides], ?_, ?_⟩
  · rw [← reply.isSuccess_outcome step, ← ho]; rfl
  · rw [Process.told_of_command hc]
    unfold Reply.outcome at ho
    split at ho
    · cases ho
    · exact (Outcome.failure.inj ho).2

/-- A switch rests on the last checkout. -/
theorem Switching.failed {branch step detail : String}
    (h : Switching g branch ps (.ok (.failure step detail))) :
    ∃ p, deciding ps = some p ∧ p.reply.succeeded = false ∧ detail = p.told := by
  generalize hres : (.ok (.failure step detail) : Except Fault Outcome) = res at h
  cases h with
  | there _ => cases hres
  | fault _ => cases hres
  | @stuck reply known hno _ =>
    cases hres
    exact ⟨⟨.checkout branch, reply⟩, rfl, hno, rfl⟩
  | @created reply known made _ _ =>
    have ho := Except.ok.inj hres
    unfold Reply.outcome at ho
    split at ho
    · cases ho
    · next hno =>
      refine ⟨⟨.create branch, made⟩, rfl, Bool.eq_false_iff.2 hno, ?_⟩
      exact (Outcome.failure.inj ho).2

/-- A merge rests on itself, also where it is undone. -/
theorem Merging.failed {source message step detail : String} {stamp : Stamp}
    (h : Merging g source message stamp ps (.ok (.failure step detail))) :
    ∃ p, deciding ps = some p ∧ p.reply.succeeded = false ∧ detail = p.told := by
  generalize hres : (.ok (.failure step detail) : Except Fault Outcome) = res at h
  cases h with
  | merged _ => cases hres
  | fault _ => cases hres
  | @refused reply hno hc =>
    cases hres
    have hquiet : ¬ Process.inConflict ⟨.merge source message stamp, reply⟩ = true := by
      rw [Process.inConflict_iff, hc]; simp
    exact ⟨⟨.merge source message stamp, reply⟩, rfl, hno, (if_neg hquiet).symm⟩
  | @undone reply undone hno hc =>
    cases hres
    have hconflict : Process.inConflict ⟨.merge source message stamp, reply⟩ = true :=
      Process.inConflict_iff.2 ⟨rfl, hno, hc⟩
    exact ⟨⟨.merge source message stamp, reply⟩, rfl, hno, (Process.told_of_conflict hconflict).symm⟩

/-- **What an operation rests on**, if it fails and does not stage. -/
theorem does_perform_failed {step detail : String} (hop : op.stages = false)
    (h : Does op.perform g ps (.ok (.failure step detail)) g') :
    ∃ p, deciding ps = some p ∧ p.reply.succeeded = false ∧ detail = p.told := by
  cases op with
  | switch branch => exact (does_switch h).failed
  | merge source message stamp => exact (does_merge h).failed
  | remove path => exact does_run_failed (by simp [Call.command]) (by simp [Call.command]) h
  | commit message stamp allowEmpty =>
    exact does_run_failed (by simp [Call.command]) (by simp [Call.command]) h
  | tag name message stamp =>
    exact does_run_failed (by simp [Call.command]) (by simp [Call.command]) h
  | stage paths => cases hop
  | stageAllExcept excluded => cases hop

/-- The processes of an operation. -/
def performed (op : Operation) (g : Git) : List Process :=
  ((op.perform : Act Git Outcome).run g).2.ran.drop g.ran.length

theorem does_performed (op : Operation) (g : Git) :
    Does op.perform g (performed op g) ((op.perform : Act Git Outcome).run g).1
      ((op.perform : Act Git Outcome).run g).2 := by
  obtain ⟨ps, h⟩ := (logs_perform op).does g
  have hps : performed op g = ps := by
    unfold performed
    rw [h.ran.ran, List.drop_left]
  rw [hps]; exact h

/-- **When the explanation of a failure is lost.** Let an operation that does not stage fail. It rests
on one of its calls, the last checkout of a switch and the merge itself of a merge, and that one
failed. The failure is described by its step alone if and only if that process printed nothing but
blanks, or it is a merge in conflict without a line of standard output that begins with `CONFLICT`;
else it is described with a line that is not empty. -/
theorem explained_iff (op : Operation) (hop : op.stages = false) (g : Git) {step detail : String}
    (h : ((op.perform : Act Git Outcome).run g).1 = .ok (.failure step detail)) :
    ∃ p, deciding (performed op g) = some p ∧ p.call ∈ calls op ∧ p.reply.succeeded = false ∧
      ((Outcome.failure step detail).describe = some (step ++ " failed") ↔ p.Untold) ∧
      ((∃ line, line ≠ "" ∧
          (Outcome.failure step detail).describe = some (step ++ " failed: " ++ line)) ↔
        ¬ p.Untold) := by
  have hdoes := does_performed op g
  rw [h] at hdoes
  obtain ⟨p, hp, hno, rfl⟩ := does_perform_failed hop hdoes
  have hmem : p ∈ performed op g := List.mem_of_mem_filter (List.mem_of_getLast? hp)
  obtain ⟨hbare, hline⟩ := Outcome.describe_failure step p.told
  refine ⟨p, hp, (does_perform hdoes).1 p hmem, hno, hbare.trans (allBlank_told p), ?_⟩
  rw [hline, ← allBlank_told, Bool.not_eq_true]

/-- Git says that the branch to merge does not exist. Its name is taken for word of a conflict, and
git's own words are lost. -/
theorem missing_branch_not_told :
    let stamp : Stamp := ⟨(⟨"Ada", "a@x"⟩ : Identity), "2025-10-18 09:00:00"⟩
    let reply : Reply :=
      { exit := 1, stderr := "merge: CONFLICT - not something we can merge".toUTF8.toList }
    let g : Git := { script := [reply] }
    reply.isSilent = false ∧
      ((merge "CONFLICT" "m" stamp).run g).1 = .ok (.failure "merge" "") ∧
      (Outcome.failure "merge" "").describe = some "merge failed" := by
  intro stamp reply g
  have hfailed : ((merge "CONFLICT" "m" stamp).run g).1 = .ok (.failure "merge" "") := by
    decide +kernel
  refine ⟨by decide +kernel, hfailed, ?_⟩
  obtain ⟨p, hp, -, -, hbare, -⟩ := explained_iff (.merge "CONFLICT" "m" stamp) rfl g hfailed
  have hdecides : deciding (performed (.merge "CONFLICT" "m" stamp) g) =
      some ⟨.merge "CONFLICT" "m" stamp, reply⟩ := by decide +kernel
  rw [hdecides] at hp
  cases hp
  exact hbare.2 (.inr ⟨by decide +kernel, by decide +kernel⟩)

end Git

end Backdate
