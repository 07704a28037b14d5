import Backdate.Event

/-!
# Plans as they are written

The content of a plan file before it is checked: any text may stand where a text
belongs, and hours and minutes go up to 255.
-/

namespace Backdate

/-- What an event spells beside its author and time. -/
inductive ActionSpec where
  | change (branch message : String) (paths : Option (List String)) (stageAll : Bool)
  | deletion (branch message : String) (paths : List String)
  | merge (target source : String)
  | tag (name branch message : String)
  deriving DecidableEq, Repr

def ActionSpec.kind : ActionSpec → Kind
  | .change .. => .change
  | .deletion .. => .deletion
  | .merge .. => .merge
  | .tag .. => .tag

/-- One event as it is written. -/
structure EventSpec where
  /-- The heading that the event is shown under. -/
  heading : Option String
  author : Author
  time : EventTime
  action : ActionSpec
  deriving DecidableEq, Repr

/-- A plan as it is written. -/
structure PlanSpec where
  /-- The spelling of the anchor. -/
  start : String
  authors : Authors
  exclude : List String
  events : List EventSpec
  deriving DecidableEq, Repr

end Backdate
