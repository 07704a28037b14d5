import Backdate.Toml.Quoting
import Backdate.Toml.Scalar
import Backdate.Toml.Tables

/-!
# Documents

The grammar of TOML 1.0: a document is a sequence of lines, each a key with its
value, a header, a comment, or nothing. Arrays may run over lines; inline tables
may not. Values nest, and keys have parts, up to a fixed depth.

The readers of lists take a number of steps that the length of the text bounds,
since each step reads at least one character.
-/

namespace Backdate.Toml

/-- Values nest less deep, and keys have fewer parts, than this. -/
def depthLimit : Nat := 80

def isBareKey (c : Char) : Bool := c.isAlphanum || c == '-' || c == '_'

/-- One part of a key, bare or quoted. -/
def keyPart? (cs : List Char) : Option (String × List Char) :=
  match cs.takeWhile isBareKey with
  | [] => line? cs
  | name => some (String.ofList name, cs.dropWhile isBareKey)

/-- The parts of a key between dots, at most so many. -/
def keyParts : Nat → Reader (List String)
  | 0, _ => none
  | steps + 1, cs => do
    let (part, cs) ← keyPart? (cs.dropWhile isGap)
    match cs.dropWhile isGap with
    | '.' :: cs => do
      let (parts, rest) ← keyParts steps cs
      return (part :: parts, rest)
    | rest => return ([part], rest)

/-- A key: the parts before the last, and the last. -/
def key? : Reader (List String × String) := fun cs => do
  let (parts, rest) ← keyParts (depthLimit - 1) cs
  return ((parts.dropLast, ← parts.getLast?), rest)

/-- What is left after blanks, line endings and comments. -/
def skipBreaks (comment : Bool) : List Char → Option (List Char)
  | [] => some []
  | c :: cs =>
    if c = '\n' then skipBreaks false cs
    else if c = '\r' then if cs.head? = some '\n' then skipBreaks false cs else none
    else if comment then if isPlain c then skipBreaks true cs else none
    else if isGap c then skipBreaks false cs
    else if c = '#' then skipBreaks true cs
    else some (c :: cs)

/-- The items of an array and its closing bracket; a comma may follow the last item. -/
def items (value : Reader Value) : Nat → Reader (List Value)
  | 0, _ => none
  | steps + 1, cs => do
    match ← skipBreaks false cs with
    | ']' :: rest => return ([], rest)
    | cs =>
      let (v, cs) ← value cs
      match ← skipBreaks false cs with
      | ',' :: cs => do
        let (vs, rest) ← items value steps cs
        return (v :: vs, rest)
      | ']' :: rest => return ([v], rest)
      | _ => none

/-- A key, an equals sign and a value. -/
def pair? (value : Reader Value) : Reader ((List String × String) × Value) := fun cs => do
  let (key, cs) ← key? cs
  let cs ← mark? '=' cs
  let (v, rest) ← value (cs.dropWhile isGap)
  return ((key, v), rest)

/-- The entries of an inline table and its closing brace, onto those already read. -/
def inlineEntries (value : Reader Value) : Nat → Nodes → Reader Nodes
  | 0, _, _ => none
  | steps + 1, es, cs => do
    let (((path, key), v), cs) ← pair? value cs
    let es ← es.put path key v .header
    match cs.dropWhile isGap with
    | ',' :: cs => inlineEntries value steps es cs
    | '\x7d' :: rest => return (es, rest)
    | _ => none

/-- An inline table after its opening brace. -/
def inlineTable? (value : Reader Value) : Reader Value := fun cs =>
  match cs.dropWhile isGap with
  | '\x7d' :: rest => some (.table [], rest)
  | _ => (inlineEntries value cs.length [] cs).map fun (es, rest) => (.table (entriesValue es), rest)

/-- A value that nests no deeper than `depth`. -/
def value? : Nat → Reader Value
  | depth, cs =>
    match cs with
    | [] => none
    | '"' :: _ => (string? cs).map fun (s, rest) => (.text s, rest)
    | '\x27' :: _ => (string? cs).map fun (s, rest) => (.text s, rest)
    | '[' :: cs =>
      match depth with
      | 0 => none
      | depth + 1 => (items (value? depth) (cs.length + 1) cs).map fun (vs, rest) => (.array vs, rest)
    | '\x7b' :: cs =>
      match depth with
      | 0 => none
      | depth + 1 => inlineTable? (value? depth) cs
    | 't' :: 'r' :: 'u' :: 'e' :: rest => some (.boolean true, rest)
    | 'f' :: 'a' :: 'l' :: 's' :: 'e' :: rest => some (.boolean false, rest)
    | cs => number? cs

/-- What follows the end of a line, after blanks and a comment. -/
def lineEnd? (cs : List Char) : Option (List Char) :=
  let rest := match cs.dropWhile isGap with
    | '#' :: cs => cs.dropWhile isPlain
    | cs => cs
  match rest with
  | [] => some []
  | cs => afterNewline? cs

/-- The lines of a document, onto the tables built so far. -/
def statements : Nat → Tables → List Char → Option Tables
  | 0, _, _ => none
  | steps + 1, t, cs => do
    match cs.dropWhile isGap with
    | [] => return t
    | '[' :: '[' :: cs => do
      let ((path, key), cs) ← key? cs
      let cs ← mark? ']' cs
      let cs ← mark? ']' cs
      let t ← t.openItem path key
      statements steps t (← lineEnd? cs)
    | '[' :: cs => do
      let ((path, key), cs) ← key? cs
      let cs ← mark? ']' cs
      let t ← t.openTable path key
      statements steps t (← lineEnd? cs)
    | c :: cs =>
      if c = '#' ∨ c = '\n' ∨ c = '\r' then do
        statements steps t (← lineEnd? (c :: cs))
      else do
        let (((path, key), v), cs) ← pair? (value? (depthLimit - 1)) (c :: cs)
        let t ← t.put path key v
        statements steps t (← lineEnd? cs)

/-- What a document says; `none` if it is malformed. A byte-order mark at its start is left out. -/
def parse (s : String) : Option Entries :=
  let cs := match s.toList with
    | '\ufeff' :: cs => cs
    | cs => cs
  (statements (cs.length + 1) {} cs).map Tables.values

end Backdate.Toml
