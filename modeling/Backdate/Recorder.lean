import Backdate.Names
import Backdate.Text.Quoted
import Backdate.Tool.Basic

/-!
# The recorder

A tool that keeps every operation instead of touching a repository. It knows
just enough of one (branches, paths in the working tree, the index) to fail as a
repository would on a missing path or an empty commit. Chosen steps can be made
to fail, and a **permissive** recorder takes every path to be there.
-/

namespace Backdate

/-- A recorded operation. -/
inductive Invocation where
  /-- `created` tells that the branch was new. -/
  | switch (branch : String) (created : Bool)
  | stage (paths : List String)
  | stageAllExcept (excluded : List String)
  | remove (path : String)
  /-- `staged` is the index that went into the commit. -/
  | commit (message : String) (stamp : Stamp) (allowEmpty : Bool) (staged : List String)
  | merge (source message : String) (stamp : Stamp)
  | tag (name message : String) (stamp : Stamp)
  deriving DecidableEq, Repr

namespace Invocation

/-- The first line of a message, quoted. -/
def subject (message : String) : String :=
  Text.quoted (String.ofList (Text.firstLine message.toList))

/-- The invocation as a command line, with its stamp as a remark. -/
def text : Invocation → String
  | .switch branch created => (if created then "git checkout -b " else "git checkout ") ++ branch
  | .stage paths => "git add -- " ++ String.intercalate " " paths
  | .stageAllExcept excluded =>
    if excluded.isEmpty then "git add -A"
    else "git add -A && git reset -- " ++ String.intercalate " " excluded
  | .remove path => "git rm -- " ++ path
  | .commit message stamp allowEmpty _ =>
    "git commit" ++ (if allowEmpty then " --allow-empty" else "") ++ " -m " ++ subject message ++
      "  # " ++ stamp.identity.text ++ " @ " ++ stamp.date
  | .merge source message stamp =>
    "git merge --no-ff " ++ source ++ " -m " ++ Text.quoted message ++
      "  # " ++ stamp.identity.name ++ " @ " ++ stamp.date
  | .tag name message stamp =>
    "git tag -a " ++ name ++ " -m " ++ subject message ++
      "  # " ++ stamp.identity.name ++ " @ " ++ stamp.date

end Invocation

/-- What has been recorded, and what the recorder knows of a repository. -/
structure Recorder where
  /-- The operations so far, oldest first. -/
  calls : List Invocation := []
  branches : Names := ∅
  current : Option String := none
  worktree : Names := ∅
  index : Names := ∅
  permissive : Bool := false
  /-- The steps that are made to fail. -/
  failing : Names := ∅
  notes : List Note := []
  deriving DecidableEq

namespace Recorder

/-- A recorder with paths in its working tree. -/
def withFiles (r : Recorder) (paths : List String) : Recorder :=
  { r with worktree := r.worktree.insertMany paths }

/-- A recorder with one branch more; the first one is the current branch. -/
def withBranch (r : Recorder) (branch : String) : Recorder :=
  { r with branches := r.branches.insert branch, current := r.current.or (some branch) }

/-- A recorder with one more step that fails. -/
def withFailing (r : Recorder) (step : String) : Recorder :=
  { r with failing := r.failing.insert step }

def hasPath (r : Recorder) (path : String) : Bool := r.permissive || path ∈ r.worktree

def record (r : Recorder) (i : Invocation) : Recorder := { r with calls := r.calls ++ [i] }

/-- The outcome of a step that fails only if it is made to, or else what `otherwise` says. -/
def forced (r : Recorder) (step : String) (otherwise : Outcome) : Outcome :=
  if step ∈ r.failing then .failure step "simulated failure" else otherwise

def unmatched (path : String) : String :=
  "fatal: pathspec '" ++ path ++ "' did not match any files"

/-- The branch is known from here on, whatever the outcome. -/
def switch (branch : String) (r : Recorder) : Outcome × Recorder :=
  let created := decide (branch ∉ r.branches)
  let r := { r.record (.switch branch created) with branches := r.branches.insert branch }
  match r.forced "checkout" .success with
  | .success => (.success, { r with current := some branch })
  | failure => (failure, r)

/-- The paths that are there are staged, also if others are missing. -/
def stage (paths : List String) (r : Recorder) : Outcome × Recorder :=
  let missing := paths.filter fun p => !r.hasPath p
  let present := paths.filter r.hasPath
  let r' := { r.record (.stage paths) with index := r.index.insertMany present }
  if missing.isEmpty then (.success, r')
  else (.failure "add" (Text.joinLines (missing.map unmatched)), r')

/-- What is in the index already stays there. -/
def stageAllExcept (excluded : List String) (r : Recorder) : Outcome × Recorder :=
  let fresh := r.worktree.filter fun p => !excluded.contains p
  (.success, { r.record (.stageAllExcept excluded) with index := r.index.insertMany fresh.toList })

/-- The path leaves the working tree, and its removal is staged. -/
def remove (path : String) (r : Recorder) : Outcome × Recorder :=
  let r := r.record (.remove path)
  if r.hasPath path then
    (.success, { r with worktree := r.worktree.erase path, index := r.index.insert path })
  else (.failure "rm" (unmatched path), r)

/-- The index is used up, whatever the outcome. -/
def commit (message : String) (stamp : Stamp) (allowEmpty : Bool) (r : Recorder) :
    Outcome × Recorder :=
  let staged := r.index.toList
  let r := { r.record (.commit message stamp allowEmpty staged) with index := ∅ }
  let otherwise :=
    if staged.isEmpty && !allowEmpty then
      .failure "commit" "nothing to commit, working tree clean"
    else .success
  (r.forced "commit" otherwise, r)

/-- Only a known branch can be merged. -/
def merge (source message : String) (stamp : Stamp) (r : Recorder) : Outcome × Recorder :=
  let r := r.record (.merge source message stamp)
  let otherwise :=
    if source ∈ r.branches then .success
    else .failure "merge" ("merge: " ++ source ++ " - not something we can merge")
  (r.forced "merge" otherwise, r)

def tag (name message : String) (stamp : Stamp) (r : Recorder) : Outcome × Recorder :=
  let r := r.record (.tag name message stamp)
  (r.forced "tag" .success, r)

/-- An operation as an action that has no fault. -/
def act (f : Recorder → Outcome × Recorder) : Act Recorder Outcome :=
  ExceptT.mk fun r => let (o, r) := f r; (.ok o, r)

instance : Tool Recorder where
  switch branch := act (switch branch)
  stage paths := act (stage paths)
  stageAllExcept excluded := act (stageAllExcept excluded)
  remove path := act (remove path)
  commit message stamp allowEmpty := act (commit message stamp allowEmpty)
  merge source message stamp := act (merge source message stamp)
  tag name message stamp := act (tag name message stamp)
  note n r := { r with notes := r.notes ++ [n] }

end Recorder

end Backdate
