import Backdate.Number.Binary64

/-!
# Values of a document

What a TOML document says, whichever way it is spelled. Tables keep their
entries in order. A date or a time is kept as it is written.
-/

namespace Backdate.Toml

open Number (Binary64)

inductive Value where
  | text (s : String)
  | integer (n : Int)
  | float (x : Binary64)
  | boolean (b : Bool)
  | time (spelling : String)
  | array (items : List Value)
  | table (entries : List (String × Value))
  deriving Repr

/-- The entries of a table, in order. -/
abbrev Entries := List (String × Value)

end Backdate.Toml
