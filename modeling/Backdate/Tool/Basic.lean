import Backdate.Anchor
import Backdate.FileTree
import Backdate.Tool.Outcome
import Backdate.Tool.Stamp

/-!
# Version-control tools

What a replay asks of a version-control tool, over the tool's state `σ`. Each
operation gives an outcome; only a **fault** stops a replay, and the state that
the tool had reached by then is kept.
-/

namespace Backdate

/-- Why a process does not start. -/
inductive StartError where
  /-- An argument or a variable has a NUL in it. -/
  | nul
  /-- The working directory cannot be entered. -/
  | directory (why : PathError)
  deriving DecidableEq, Repr

def StartError.message : StartError → String
  | .nul => "nul byte found in provided data"
  | .directory why => why.message

/-- What stops a replay. -/
inductive Fault where
  | unresolved (why : Anchor.Unresolved)
  /-- The git command did not start. -/
  | notStarted (command : String) (why : StartError)
  | noCurrentBranch
  deriving DecidableEq

/-- What is wrong and why, from the outside in. -/
def Fault.causes : Fault → List String
  | .unresolved why => [why.message]
  | .notStarted command why => ["Failed to run git " ++ command, why.message]
  | .noCurrentBranch => ["Failed to get current branch"]

/-- Who writes a note. -/
inductive Topic where
  | git
  | history
  deriving DecidableEq, Repr

/-- A line for whoever looks into a run. -/
structure Note where
  topic : Topic
  text : String
  deriving DecidableEq, Repr

def Note.line (n : Note) : String :=
  match n.topic with
  | .git => "[DEBUG git] " ++ n.text
  | .history => "[DEBUG history] " ++ n.text

/-- An action on a state that may end in a fault; the state reached is kept either way. -/
abbrev Act (σ : Type) := ExceptT Fault (StateM σ)

/-- A version-control tool with state `σ`. -/
class Tool (σ : Type) where
  /-- Goes to a branch, which is created if there is none. -/
  switch (branch : String) : Act σ Outcome
  /-- Stages the given paths. -/
  stage (paths : List String) : Act σ Outcome
  /-- Stages all that changed, save the given paths. -/
  stageAllExcept (excluded : List String) : Act σ Outcome
  /-- Removes a path from the working tree and the index. -/
  remove (path : String) : Act σ Outcome
  commit (message : String) (stamp : Stamp) (allowEmpty : Bool) : Act σ Outcome
  /-- Merges a branch into the current one, always by a commit. -/
  merge (source message : String) (stamp : Stamp) : Act σ Outcome
  tag (name message : String) (stamp : Stamp) : Act σ Outcome
  /-- Keeps a note. -/
  note (n : Note) : σ → σ

/-- An operation with its arguments. -/
inductive Operation where
  | switch (branch : String)
  | stage (paths : List String)
  | stageAllExcept (excluded : List String)
  | remove (path : String)
  | commit (message : String) (stamp : Stamp) (allowEmpty : Bool)
  | merge (source message : String) (stamp : Stamp)
  | tag (name message : String) (stamp : Stamp)
  deriving DecidableEq, Repr

/-- Asks a tool for an operation. -/
def Operation.perform {σ : Type} [Tool σ] : Operation → Act σ Outcome
  | .switch branch => Tool.switch branch
  | .stage paths => Tool.stage paths
  | .stageAllExcept excluded => Tool.stageAllExcept excluded
  | .remove path => Tool.remove path
  | .commit message stamp allowEmpty => Tool.commit message stamp allowEmpty
  | .merge source message stamp => Tool.merge source message stamp
  | .tag name message stamp => Tool.tag name message stamp

end Backdate
