import Backdate.Calendar.Date
import Backdate.Toml.Quoting
import Backdate.Toml.Value

/-!
# Numbers and times in a document

Integers in four bases, floating point numbers, dates and times. A reader gives
what it read and the rest, which no longer starts with a character of the same
thing; what may follow a value is seen by its caller.
-/

namespace Backdate.Toml

open Number (Binary64)

/-- A reader: what is read, and the rest. -/
abbrev Reader (α : Type) := List Char → Option (α × List Char)

/-- Digits, with single underscores between them. -/
def digitRun (isDigit : Char → Bool) : List Char → List Char × List Char
  | [] => ([], [])
  | c :: cs =>
    if isDigit c then
      let (ds, rest) := digitRun isDigit cs
      (c :: ds, rest)
    else
      match c, cs with
      | '_', d :: _ =>
        if isDigit d then digitRun isDigit cs else ([], c :: cs)
      | _, _ => ([], c :: cs)

/-- At least one digit, and no underscore before the first. -/
def digits? (isDigit : Char → Bool) : Reader (List Char)
  | [] => none
  | c :: cs => if isDigit c then some (digitRun isDigit (c :: cs)) else none

/-- A sign, if there is one; the flag tells a minus. -/
def sign : List Char → Bool × List Char
  | '-' :: cs => (true, cs)
  | '+' :: cs => (false, cs)
  | cs => (false, cs)

/-- Decimal digits without a leading zero, save for the zero itself. -/
def decimal? : Reader Nat
  | '0' :: cs => some (0, cs)
  | cs => (digits? Char.isDigit cs).map fun (ds, rest) => (Nat.ofDigitChars 10 ds 0, rest)

/-- Digits in a base other than ten. -/
def based? (base : Nat) : Reader Int := fun cs =>
  (digits? (fun c => (hexDigit? c).any (· < base)) cs).map fun (ds, rest) =>
    let n : Nat := ds.foldl (fun n c => n * base + (hexDigit? c).getD 0) 0
    (n, rest)

/-- A number that fits a signed word of 64 bits. -/
def word? (n : Int) : Option Int :=
  if -9223372036854775808 ≤ n ∧ n ≤ 9223372036854775807 then some n else none

def integer? : Reader Int := fun cs => do
  let (n, rest) ← match cs with
    | '0' :: 'x' :: cs => based? 16 cs
    | '0' :: 'o' :: cs => based? 8 cs
    | '0' :: 'b' :: cs => based? 2 cs
    | cs =>
      let (minus, cs) := sign cs
      (decimal? cs).map fun (n, rest) => (if minus then -(n : Int) else n, rest)
  let n ← word? n
  return (n, rest)

/-- The digits after a point. -/
def fraction? : Reader (List Char)
  | '.' :: cs => digits? Char.isDigit cs
  | _ => none

/-- The power of ten after an `e`. -/
def exponent? : Reader Int
  | c :: cs =>
    if c == 'e' || c == 'E' then
      let (minus, cs) := sign cs
      (digits? Char.isDigit cs).map fun (ds, rest) =>
        let n : Int := Nat.ofDigitChars 10 ds 0
        (if minus then -n else n, rest)
    else none
  | [] => none

/-- A number with a fraction or an exponent. One beyond the greatest number is refused, one beyond
the least is taken for minus infinity. -/
def decimalFloat? : Reader Binary64 := fun cs => do
  let (minus, cs) := sign cs
  let (whole, cs) ← decimal? cs
  let (x, rest) ← match exponent? cs with
    | some (e, rest) => some (Binary64.ofDecimal minus whole e, rest)
    | none => do
      let (ds, cs) ← fraction? cs
      let (e, rest) := (exponent? cs).getD (0, cs)
      some (Binary64.ofDecimal minus (Nat.ofDigitChars 10 ds whole) (e - ds.length), rest)
  if x = .infinite false then none else some (x, rest)

/-- Infinity, or what is no number. -/
def specialFloat? : Reader Binary64 := fun cs =>
  match sign cs with
  | (minus, 'i' :: 'n' :: 'f' :: rest) => some (.infinite minus, rest)
  | (_, 'n' :: 'a' :: 'n' :: rest) => some (.nan, rest)
  | _ => none

def float? : Reader Binary64 := fun cs => (decimalFloat? cs).or (specialFloat? cs)

/-- Exactly `count` digits, with a value from `lo` to `hi`. -/
def fixed? (count lo hi : Nat) : Reader Nat := fun cs =>
  let ds := cs.take count
  let n := Nat.ofDigitChars 10 ds 0
  if ds.length = count ∧ ds.all Char.isDigit ∧ lo ≤ n ∧ n ≤ hi then some (n, cs.drop count) else none

/-- One given character. -/
def mark? (c : Char) : List Char → Option (List Char)
  | [] => none
  | d :: cs => if d = c then some cs else none

/-- A day of the calendar in the years 0 to 9999. -/
def date? (cs : List Char) : Option (List Char) := do
  let (y, cs) ← fixed? 4 0 9999 cs
  let cs ← mark? '-' cs
  let (m, cs) ← fixed? 2 1 12 cs
  let cs ← mark? '-' cs
  let (_, cs) ← fixed? 2 1 (Calendar.monthDays y m) cs
  return cs

/-- A fraction of a second, if there is one. -/
def subsecond (cs : List Char) : List Char :=
  match cs with
  | '.' :: d :: rest => if d.isDigit then rest.dropWhile Char.isDigit else cs
  | _ => cs

/-- A time of day, to the second at least. -/
def clock? (cs : List Char) : Option (List Char) := do
  let (_, cs) ← fixed? 2 0 23 cs
  let cs ← mark? ':' cs
  let (_, cs) ← fixed? 2 0 59 cs
  let cs ← mark? ':' cs
  let (_, cs) ← fixed? 2 0 60 cs
  return subsecond cs

/-- An offset from universal time. -/
def offset? : List Char → Option (List Char)
  | c :: cs =>
    if c == 'Z' || c == 'z' then some cs
    else if c == '+' || c == '-' then do
      let (_, cs) ← fixed? 2 0 23 cs
      let cs ← mark? ':' cs
      let (_, cs) ← fixed? 2 0 59 cs
      return cs
    else none
  | [] => none

/-- What stands between a date and a time, the time, and its offset if there is one. -/
def clockAfterDate? : List Char → Option (List Char)
  | c :: cs =>
    if c == 'T' || c == 't' || c == ' ' then
      (clock? cs).map fun cs => (offset? cs).getD cs
    else none
  | [] => none

/-- A date, a time, or both. -/
def time? : Reader String := fun cs => do
  let rest ← match date? cs with
    | some cs => some ((clockAfterDate? cs).getD cs)
    | none => clock? cs
  return (String.ofList (cs.take (cs.length - rest.length)), rest)

/-- A number or a time. -/
def number? : Reader Value := fun cs =>
  match time? cs with
  | some (t, rest) => some (.time t, rest)
  | none =>
    match float? cs with
    | some (x, rest) => some (.float x, rest)
    | none => (integer? cs).map fun (n, rest) => (.integer n, rest)

end Backdate.Toml
