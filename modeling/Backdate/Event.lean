import Backdate.Anchor
import Backdate.Author

/-!
# Events

An event of a planned history: who does what, when, on which branch.
-/

namespace Backdate

/-- What a change stages. -/
inductive PathSelection where
  /-- Nothing: the commit has no content. -/
  | nothing
  /-- All that changed, save the excluded paths. -/
  | everything
  | listed (paths : List String)
  deriving DecidableEq, Repr

/-- What an event does on its branch. -/
inductive Action where
  | change (message : String) (paths : PathSelection)
  | deletion (message : String) (paths : List String)
  | merge (source : String)
  | tag (name message : String)
  deriving DecidableEq, Repr

inductive Kind where
  | change
  | deletion
  | merge
  | tag
  deriving DecidableEq, Repr

def Kind.text : Kind → String
  | .change => "change"
  | .deletion => "deletion"
  | .merge => "merge"
  | .tag => "tag"

def Action.kind : Action → Kind
  | .change .. => .change
  | .deletion .. => .deletion
  | .merge .. => .merge
  | .tag .. => .tag

/-- One event. A merge is an event of the branch that is merged into. -/
structure Event where
  branch : String
  author : Author
  time : EventTime
  action : Action
  deriving DecidableEq, Repr

def Event.kind (e : Event) : Kind := e.action.kind

end Backdate
