import Backdate.Calendar.Moment
import Backdate.Text.Blank

/-!
# Reading moments

A moment is written `YYYY-MM-DDTHH:MM:SS`, or with blanks (or nothing) in place
of the `T`. Its parts are read from left to right, each number after any blanks
and each within its range at once; that the date exists is seen last. If the
first form does not fit, for whatever reason, the error is the second form's.
-/

namespace Backdate.Calendar

/-- Why a text is no moment. -/
inductive ReadError where
  /-- The text ends too early. -/
  | premature
  /-- Another character stands where a part was expected. -/
  | unexpected
  /-- A number is out of range, or the date does not exist. -/
  | outOfRange
  /-- Something follows the moment. -/
  | trailing
  deriving DecidableEq, Repr

def ReadError.message : ReadError → String
  | .premature => "premature end of input"
  | .unexpected => "input contains invalid characters"
  | .outOfRange => "input is out of range"
  | .trailing => "trailing input"

namespace Reader

/-- The greatest number that is read at all. -/
def maxNumber : Nat := 9223372036854775807

/-- At least one digit, as many as there are up to `limit`. -/
def digits (limit : Nat) (cs : List Char) : Except ReadError (Nat × List Char) :=
  let ds := (cs.take limit).takeWhile Char.isDigit
  match cs, ds with
  | [], _ => .error .premature
  | _, [] => .error .unexpected
  | _, _ =>
    let n := Nat.ofDigitChars 10 ds 0
    if n ≤ maxNumber then .ok (n, cs.drop ds.length) else .error .outOfRange

/-- A number of at most two digits, from `lo` to `hi`, after any blanks. -/
def field (lo hi : Nat) (cs : List Char) : Except ReadError (Nat × List Char) := do
  let (n, rest) ← digits 2 (Text.trimStart cs)
  if lo ≤ n ∧ n ≤ hi then .ok (n, rest) else .error .outOfRange

/-- A year after any blanks: at most four digits, or a sign and any number of them. It has to fit
a signed word of 32 bits. -/
def year (cs : List Char) : Except ReadError (Int × List Char) := do
  let (y, rest) ← match Text.trimStart cs with
    | '-' :: ds => (digits ds.length ds).map fun (n, r) => (-(n : Int), r)
    | '+' :: ds => (digits ds.length ds).map fun (n, r) => ((n : Int), r)
    | ds => (digits 4 ds).map fun (n, r) => ((n : Int), r)
  if -2147483648 ≤ y ∧ y ≤ 2147483647 then .ok (y, rest) else .error .outOfRange

/-- One given character. -/
def mark (c : Char) : List Char → Except ReadError (List Char)
  | [] => .error .premature
  | d :: cs => if d = c then .ok cs else .error .unexpected

/-- A date, what stands between date and time, a time, and the end. -/
def moment (between : List Char → Except ReadError (List Char)) (cs : List Char) :
    Except ReadError Moment := do
  let (y, cs) ← year cs
  let cs ← mark '-' cs
  let (mo, cs) ← field 1 12 cs
  let cs ← mark '-' cs
  let (d, cs) ← field 1 31 cs
  let cs ← between cs
  let (h, cs) ← field 0 23 cs
  let cs ← mark ':' cs
  let (mi, cs) ← field 0 59 cs
  let cs ← mark ':' cs
  let (s, cs) ← field 0 60 cs
  if !cs.isEmpty then .error .trailing
  else
    match Date.of? y mo d, Clock.of? h mi s with
    | some date, some clock => .ok ⟨date, clock⟩
    | _, _ => .error .outOfRange

end Reader

/-- The moment that a text spells. -/
def Moment.read (cs : List Char) : Except ReadError Moment :=
  match Reader.moment (Reader.mark 'T') cs with
  | .ok m => .ok m
  | .error _ => Reader.moment (fun cs => .ok (Text.trimStart cs)) cs

end Backdate.Calendar
