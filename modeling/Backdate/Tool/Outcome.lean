import Backdate.Text.Blank
import Backdate.Text.Lines

/-!
# Outcomes

A step of a version-control tool succeeds or fails. A failure is a value and not
an error: the replay goes on after it. It is described by its first line that is
not blank (`Outcome.describe`).
-/

namespace Backdate

/-- The result of one step of a tool. -/
inductive Outcome where
  | success
  | failure (step detail : String)
  deriving DecidableEq, Repr

namespace Outcome

def isSuccess : Outcome → Bool
  | .success => true
  | .failure .. => false

/-- The first line of a failure's detail that is not blank, without the blanks around it. -/
def gist (detail : String) : Option String :=
  ((Text.lines detail.toList).find? fun l => !l.all Text.isBlank).map fun l =>
    String.ofList (Text.trim l)

/-- One line on a failure. -/
def describe : Outcome → Option String
  | .success => none
  | .failure step detail =>
    match gist detail with
    | none => some (step ++ " failed")
    | some line => some (step ++ " failed: " ++ line)

end Outcome

end Backdate
