/-!
# Authors

A history has two authors, and every event names one of them.
-/

namespace Backdate

/-- Which of the two authors an event belongs to. -/
inductive Author where
  | first
  | second
  deriving DecidableEq, Repr

def Author.text : Author → String
  | .first => "first"
  | .second => "second"

/-- The name and the address that a commit carries. -/
structure Identity where
  name : String
  email : String
  deriving DecidableEq, Repr

def Identity.text (i : Identity) : String := i.name ++ " <" ++ i.email ++ ">"

/-- The identities of the two authors. -/
structure Authors where
  first : Identity
  second : Identity
  deriving DecidableEq, Repr

def Authors.identity (a : Authors) : Author → Identity
  | .first => a.first
  | .second => a.second

end Backdate
