import Backdate.Proofs.Course
import Backdate.Proofs.Spelling

/-!
# What is handed to git

A process does not start if there is a NUL in what it is given. All that an
operation gives to git are its own texts (`hasNul_calls`), and all that an event
gives are the texts of the plan: a moment is written without NUL, and the message
of a merge is made of the names of its branches (`hasNul_operations`).
-/

namespace Backdate

open Calendar

/-! ## Texts -/

theorem Text.hasNul_eq_false_iff {s : String} : Text.hasNul s = false ↔ Without '\x00' s := by
  unfold Text.hasNul Without
  rw [List.contains_eq_mem, decide_eq_false_iff_not]

theorem Text.hasNul_append (s t : String) :
    Text.hasNul (s ++ t) = (Text.hasNul s || Text.hasNul t) := by
  unfold Text.hasNul
  rw [String.toList_append, Bool.eq_iff_iff]
  simp

/-- A moment is written without NUL. -/
theorem Calendar.Moment.hasNul_text (m : Moment) : Text.hasNul m.text = false :=
  Text.hasNul_eq_false_iff.2 (m.notMem_text (by decide) (by decide))

theorem hasNul_mergeMessage (source target : String) :
    Text.hasNul (mergeMessage source target) = (Text.hasNul source || Text.hasNul target) := by
  have hopen : Text.hasNul "Merge branch '" = false := by decide
  have hclose : Text.hasNul "' into " = false := by decide
  unfold mergeMessage
  simp only [Text.hasNul_append, hopen, hclose, Bool.false_or, Bool.or_false]

/-! ## Operations -/

/-- The texts of a stamp. -/
def Stamp.texts (s : Stamp) : List String :=
  [s.signers.author.name, s.signers.author.email, s.signers.committer.name,
    s.signers.committer.email, s.date]

/-- The texts of an operation. -/
def Operation.texts : Operation → List String
  | .switch branch => [branch]
  | .stage paths => paths
  | .stageAllExcept excluded => excluded
  | .remove path => [path]
  | .commit message stamp _ => message :: stamp.texts
  | .merge source message stamp => source :: message :: stamp.texts
  | .tag name message stamp => name :: message :: stamp.texts

theorem Stamp.any_environment (s : Stamp) :
    (s.environment.any fun v => Text.hasNul v.2) = s.texts.any Text.hasNul := by
  simp only [environment, texts, List.any_cons, List.any_nil, Bool.or_false]
  grind

namespace Call

theorem hasNul_add (path : String) : (add path).hasNul = Text.hasNul path := by
  simp [hasNul, add, Text.hasNul]

theorem hasNul_reset (path : String) : (reset path).hasNul = Text.hasNul path := by
  simp [hasNul, reset, Text.hasNul]

theorem hasNul_remove (path : String) : (remove path).hasNul = Text.hasNul path := by
  simp [hasNul, remove, Text.hasNul]

theorem hasNul_addAll : addAll.hasNul = false := by decide

theorem hasNul_commit (message : String) (stamp : Stamp) (allowEmpty : Bool) :
    (commit message stamp allowEmpty).hasNul = (message :: stamp.texts).any Text.hasNul := by
  have hargs : (commit message stamp allowEmpty).args.any Text.hasNul = Text.hasNul message := by
    cases allowEmpty <;> simp [commit, Text.hasNul]
  unfold hasNul
  rw [hargs, List.any_cons, ← stamp.any_environment]; rfl

theorem hasNul_merge (source message : String) (stamp : Stamp) :
    (merge source message stamp).hasNul = (source :: message :: stamp.texts).any Text.hasNul := by
  have hargs : (merge source message stamp).args.any Text.hasNul =
      (Text.hasNul source || Text.hasNul message) := by
    rw [Bool.or_comm]; simp [merge, Text.hasNul]
  unfold hasNul
  rw [hargs, List.any_cons, List.any_cons, ← stamp.any_environment, Bool.or_assoc]; rfl

theorem hasNul_tag (name message : String) (stamp : Stamp) :
    (tag name message stamp).hasNul = (name :: message :: stamp.texts).any Text.hasNul := by
  have hargs : (tag name message stamp).args.any Text.hasNul =
      (Text.hasNul name || Text.hasNul message) := by
    simp [tag, Text.hasNul]
  unfold hasNul
  rw [hargs, List.any_cons, List.any_cons, ← stamp.any_environment, Bool.or_assoc]; rfl

end Call

/-- **All that git is given are the texts of the operation.** -/
theorem Git.hasNul_calls (op : Operation) :
    (calls op).any Call.hasNul = op.texts.any Text.hasNul := by
  cases op with
  | switch branch =>
    simp [calls, Operation.texts, Call.hasNul_checkout, Call.hasNul_verify, Call.hasNul_create]
  | stage paths =>
    simp only [calls, Operation.texts, List.any_map]
    exact congrArg paths.any (funext Call.hasNul_add)
  | stageAllExcept excluded =>
    simp only [calls, Operation.texts, List.any_cons, List.any_map, Call.hasNul_addAll, Bool.false_or]
    exact congrArg excluded.any (funext Call.hasNul_reset)
  | remove path => simp [calls, Operation.texts, Call.hasNul_remove]
  | commit message stamp allowEmpty =>
    simp only [calls, Operation.texts, List.any_cons, List.any_nil, Bool.or_false, Call.hasNul_commit]
  | merge source message stamp =>
    simp only [calls, Operation.texts, List.any_cons, List.any_nil, Bool.or_false, Call.hasNul_merge,
      Call.hasNul_abort]
  | tag name message stamp =>
    simp only [calls, Operation.texts, List.any_cons, List.any_nil, Bool.or_false, Call.hasNul_tag]

/-! ## Events -/

namespace Replayer

/-- The operations of an event that has a moment. -/
def operations (r : Replayer) (e : Event) (m : Moment) : List Operation :=
  .switch e.branch :: (r.preparations e ++ [e.writing (r.stamp e.author m)])

/-- The texts of a replay that an event hands to git. -/
def texts (r : Replayer) (e : Event) : List String :=
  [e.branch, (r.authors.identity e.author).name, (r.authors.identity e.author).email] ++
    match e.action with
    | .change message .nothing => [message]
    | .change message .everything => message :: r.excluded
    | .change message (.listed paths) => message :: paths
    | .deletion message paths => message :: paths
    | .merge source => [source]
    | .tag name message => [name, message]

/-- **All that an event hands to git are its texts**: its moment and its merge message add no NUL. -/
theorem hasNul_operations (r : Replayer) (e : Event) (m : Moment) :
    ((r.operations e m).flatMap Git.calls).any Call.hasNul = (r.texts e).any Text.hasNul := by
  have hcalls : ((r.operations e m).flatMap Git.calls).any Call.hasNul =
      (r.operations e m).any fun op => op.texts.any Text.hasNul := by
    rw [List.any_flatMap]
    exact congrArg (r.operations e m).any (funext Git.hasNul_calls)
  have hstamp : (r.stamp e.author m).texts.any Text.hasNul =
      (Text.hasNul (r.authors.identity e.author).name ||
        Text.hasNul (r.authors.identity e.author).email) := by
    -- the author and the committer are one
    simp only [Stamp.texts, stamp, List.any_cons, List.any_nil, m.hasNul_text, Bool.or_false]
    grind
  rw [hcalls]
  unfold operations texts preparations Event.writing
  rcases e with ⟨branch, author, time, action⟩
  cases action with
  | change message paths =>
    cases paths <;> simp only [Operation.texts, List.any_cons, List.any_append, List.any_nil, hstamp] <;>
      grind
  | deletion message paths =>
    have hpaths : ((paths.map Operation.remove).any fun op => op.texts.any Text.hasNul) =
        paths.any Text.hasNul := by
      simp [Operation.texts, List.any_map, Function.comp_def]
    simp only [List.any_cons, List.any_append, List.any_nil, hpaths]
    simp only [Operation.texts, List.any_cons, List.any_nil, hstamp]
    grind
  | merge source =>
    simp only [Operation.texts, List.any_cons, List.any_append, List.any_nil, hstamp,
      hasNul_mergeMessage]
    grind
  | tag name message =>
    simp only [Operation.texts, List.any_cons, List.any_append, List.any_nil, hstamp]
    grind

end Replayer

end Backdate
