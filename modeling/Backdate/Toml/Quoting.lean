/-!
# Strings in a document

Four ways to spell a string: between double quotes, where a backslash escapes,
or between apostrophes, where nothing does; and each either on one line or
between three of its marks over several lines. Over several lines a newline
right after the opening marks is left out, a line ending is always one newline
character, and up to two marks may stand before the closing three. Between double
quotes over several lines, a backslash at the end of a line leaves out all
blanks and line endings up to the next character.
-/

namespace Backdate.Toml

/-- Characters that may stand for themselves in a string or a comment: the tab, and all that are
no controls. -/
def isPlain (c : Char) : Bool :=
  c == '\t' || (0x20 ≤ c.toNat && c.toNat ≤ 0x7E) || 0x80 ≤ c.toNat

/-- The blanks of a document within a line. -/
def isGap (c : Char) : Bool := c == ' ' || c == '\t'

/-- What follows a line ending, if there is one. -/
def afterNewline? : List Char → Option (List Char)
  | '\n' :: cs => some cs
  | '\r' :: '\n' :: cs => some cs
  | _ => none

/-- The value of a hexadecimal digit. -/
def hexDigit? (c : Char) : Option Nat :=
  if '0' ≤ c ∧ c ≤ '9' then some (c.toNat - '0'.toNat)
  else if 'a' ≤ c ∧ c ≤ 'f' then some (c.toNat - 'a'.toNat + 10)
  else if 'A' ≤ c ∧ c ≤ 'F' then some (c.toNat - 'A'.toNat + 10)
  else none

/-- The character with a code point, if there is one. -/
def scalar? (n : Nat) : Option Char := if n.isValidChar then some (Char.ofNat n) else none

/-- The character that a letter stands for after a backslash. -/
def escaped? : Char → Option Char
  | 'b' => some '\x08'
  | 't' => some '\t'
  | 'n' => some '\n'
  | 'f' => some '\x0c'
  | 'r' => some '\r'
  | '"' => some '"'
  | '\\' => some '\\'
  | _ => none

/-- Where the reader of a double-quoted string stands. -/
inductive Pending where
  /-- Between characters. -/
  | nothing
  /-- After a backslash. -/
  | escape
  /-- Within the digits of a code point: how many are to come after the next, and the value so far. -/
  | code (left value : Nat)
  /-- After a backslash at the end of a line. -/
  | fold

/-- A string whose characters were kept last first, and the rest. -/
def finish (read rest : List Char) : Option (String × List Char) :=
  some (String.ofList read.reverse, rest)

/-- The rest of a double-quoted string on one line; `read` is what came before, last first. -/
def basicLine (read : List Char) : Pending → List Char → Option (String × List Char)
  | _, [] => none
  | .escape, c :: cs =>
    match c with
    | 'u' => basicLine read (.code 3 0) cs
    | 'U' => basicLine read (.code 7 0) cs
    | c => (escaped? c).bind fun d => basicLine (d :: read) .nothing cs
  | .code left value, c :: cs =>
    (hexDigit? c).bind fun d =>
      let value := value * 16 + d
      match left with
      | 0 => (scalar? value).bind fun e => basicLine (e :: read) .nothing cs
      | left + 1 => basicLine read (.code left value) cs
  | _, c :: cs =>
    if c = '"' then finish read cs
    else if c = '\\' then basicLine read .escape cs
    else if isPlain c then basicLine (c :: read) .nothing cs
    else none

/-- The rest of a double-quoted string over several lines. -/
def basicBlock (read : List Char) : Pending → List Char → Option (String × List Char)
  | _, [] => none
  | .escape, c :: cs =>
    match c with
    | 'u' => basicBlock read (.code 3 0) cs
    | 'U' => basicBlock read (.code 7 0) cs
    | c => (escaped? c).bind fun d => basicBlock (d :: read) .nothing cs
  | .code left value, c :: cs =>
    (hexDigit? c).bind fun d =>
      let value := value * 16 + d
      match left with
      | 0 => (scalar? value).bind fun e => basicBlock (e :: read) .nothing cs
      | left + 1 => basicBlock read (.code left value) cs
  | pending, c :: cs =>
    let folding := match pending with
      | .fold => true
      | _ => false
    if c = '"' then
      match cs with
      | '"' :: '"' :: '"' :: '"' :: rest => finish ('"' :: '"' :: read) rest
      | '"' :: '"' :: '"' :: rest => finish ('"' :: read) rest
      | '"' :: '"' :: rest => finish read rest
      | _ => basicBlock ('"' :: read) .nothing cs
    else if c = '\\' then
      if (afterNewline? (cs.dropWhile isGap)).isSome then basicBlock read .fold cs
      else basicBlock read .escape cs
    else if c = '\n' then basicBlock (if folding then read else '\n' :: read) pending cs
    else if c = '\r' then
      -- the newline that has to follow is read next
      if cs.head? = some '\n' then basicBlock read pending cs else none
    else if folding && isGap c then basicBlock read .fold cs
    else if isPlain c then basicBlock (c :: read) .nothing cs
    else none

/-- The rest of an apostrophe-quoted string on one line. -/
def literalLine (read : List Char) : List Char → Option (String × List Char)
  | [] => none
  | c :: cs =>
    if c = '\x27' then finish read cs
    else if isPlain c then literalLine (c :: read) cs
    else none

/-- The rest of an apostrophe-quoted string over several lines. -/
def literalBlock (read : List Char) : List Char → Option (String × List Char)
  | [] => none
  | c :: cs =>
    if c = '\x27' then
      match cs with
      | '\x27' :: '\x27' :: '\x27' :: '\x27' :: rest => finish ('\x27' :: '\x27' :: read) rest
      | '\x27' :: '\x27' :: '\x27' :: rest => finish ('\x27' :: read) rest
      | '\x27' :: '\x27' :: rest => finish read rest
      | _ => literalBlock ('\x27' :: read) cs
    else if c = '\n' then literalBlock ('\n' :: read) cs
    else if c = '\r' then if cs.head? = some '\n' then literalBlock read cs else none
    else if isPlain c then literalBlock (c :: read) cs
    else none

/-- A text without one line ending at its start. -/
def dropNewline (cs : List Char) : List Char := (afterNewline? cs).getD cs

/-- A string on one line. -/
def line? : List Char → Option (String × List Char)
  | '"' :: cs => basicLine [] .nothing cs
  | '\x27' :: cs => literalLine [] cs
  | _ => none

/-- A string of any form. -/
def string? : List Char → Option (String × List Char)
  | '"' :: '"' :: '"' :: cs => basicBlock [] .nothing (dropNewline cs)
  | '\x27' :: '\x27' :: '\x27' :: cs => literalBlock [] (dropNewline cs)
  | cs => line? cs

end Backdate.Toml
