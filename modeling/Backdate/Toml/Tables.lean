import Backdate.Toml.Value

/-!
# Tables under construction

The tables of a document are built up by its headers and keys. How a table came
to be decides what may still be added to it: a table that a header opened is
opened once only, a table that was implied on the way to another may still get a
header of its own, and a table made by a dotted key is added to by dotted keys
only.

* `Tables.put`: one key with its value;
* `Tables.openTable`, `Tables.openItem`: a header `[a.b]` or `[[a.b]]`.
-/

namespace Backdate.Toml

/-- How a table came to be. -/
inductive Form where
  /-- By a header of its own, or as the document itself. -/
  | header
  /-- On the way to a table with a header. -/
  | implied
  /-- By a dotted key. -/
  | dotted
  deriving DecidableEq, Repr

/-- A value, a table, or the items of an array of tables. -/
inductive Node where
  | leaf (v : Value)
  | table (form : Form) (entries : List (String × Node))
  | items (tables : List (List (String × Node)))

/-- The entries of a table under construction, in order. -/
abbrev Nodes := List (String × Node)

mutual

/-- What a finished part of a document says. -/
def Node.value : Node → Value
  | .leaf v => v
  | .table _ entries => .table (entriesValue entries)
  | .items tables => .array (itemsValue tables)

def entriesValue : List (String × Node) → List (String × Value)
  | [] => []
  | (key, node) :: rest => (key, node.value) :: entriesValue rest

def itemsValue : List (List (String × Node)) → List Value
  | [] => []
  | entries :: rest => .table (entriesValue entries) :: itemsValue rest

end

namespace Nodes

/-- The entries with another node at a key. -/
def replace (key : String) (node : Node) (es : Nodes) : Nodes :=
  es.map fun e => if e.1 = key then (key, node) else e

/-- Changes the table that a path leads to, making the tables on the way as `made`. The last item
stands for an array of tables. A dotted key does not lead through a table with a header. -/
def alter (made : Form) (change : Form → Nodes → Option Nodes) :
    Form → List String → Nodes → Option Nodes
  | form, [], es => change form es
  | _, key :: path, es =>
    match es.lookup key with
    | none =>
      (alter made change made path []).map fun sub => es ++ [(key, .table made sub)]
    | some (.leaf _) => none
    | some (.table form sub) =>
      if made = .dotted ∧ form = .header then none
      else (alter made change form path sub).map fun sub => replace key (.table form sub) es
    | some (.items tables) =>
      (alter made change .header path (tables.getLast?.getD [])).map fun sub =>
        replace key (.items (tables.dropLast ++ [sub])) es

/-- Adds an entry that is not there yet. -/
def add (key : String) (v : Value) (es : Nodes) : Option Nodes :=
  if (es.lookup key).isSome then none else some (es ++ [(key, .leaf v)])

/-- Adds the value of a dotted key to a table. The table that the dots lead to has to be one made
by a dotted key. -/
def put (path : List String) (key : String) (v : Value) (form : Form) (es : Nodes) :
    Option Nodes :=
  es.alter .dotted (fun form es =>
    if (form == .dotted) == path.isEmpty then none else add key v es) form path

end Nodes

/-- A document so far: its entries, and the path of the table that the next key goes to. -/
structure Tables where
  entries : Nodes := []
  here : List String := []

namespace Tables

/-- Adds the value of a dotted key to the current table. -/
def put (t : Tables) (path : List String) (key : String) (v : Value) : Option Tables :=
  (t.entries.alter .implied (fun form es => es.put path key v form) .header t.here).map fun es =>
    { t with entries := es }

/-- A header: the table must be new, or only implied so far; it becomes the last one. -/
def openTable (t : Tables) (path : List String) (key : String) : Option Tables :=
  let change (_ : Form) (es : Nodes) : Option Nodes :=
    match es.lookup key with
    | none => some (es ++ [(key, .table .header [])])
    | some (.table .implied sub) =>
      some (es.filter (fun e => e.1 != key) ++ [(key, .table .header sub)])
    | some _ => none
  (t.entries.alter .implied change .header path).map fun es => ⟨es, path ++ [key]⟩

/-- A header of an array of tables: one item more. -/
def openItem (t : Tables) (path : List String) (key : String) : Option Tables :=
  let change (_ : Form) (es : Nodes) : Option Nodes :=
    match es.lookup key with
    | none => some (es ++ [(key, .items [[]])])
    | some (.items tables) => some (es.replace key (.items (tables ++ [[]])))
    | some _ => none
  (t.entries.alter .implied change .header path).map fun es => ⟨es, path ++ [key]⟩

/-- What the finished document says. -/
def values (t : Tables) : Entries := entriesValue t.entries

end Tables

end Backdate.Toml
