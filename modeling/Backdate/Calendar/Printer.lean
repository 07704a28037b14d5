import Backdate.Calendar.Moment

/-!
# Writing moments

`YYYY-MM-DD HH:MM:SS`. A year outside 0 to 9999 has a sign, and every year at
least four digits.
-/

namespace Backdate.Calendar

/-- A number in at least `width` digits. -/
def padded (width n : Nat) : List Char :=
  let ds := Nat.toDigits 10 n
  List.replicate (width - ds.length) '0' ++ ds

/-- The digits of a year, signed outside 0 to 9999. -/
def yearText (y : Int) : List Char :=
  if y < 0 then '-' :: padded 4 y.natAbs
  else if 9999 < y then '+' :: padded 4 y.natAbs
  else padded 4 y.natAbs

def dateText (d : Date) : List Char :=
  yearText d.year ++ '-' :: padded 2 d.month ++ '-' :: padded 2 d.day

def clockText (c : Clock) : List Char :=
  padded 2 c.hour ++ ':' :: padded 2 c.minute ++ ':' :: padded 2 c.second

namespace Moment

/-- `YYYY-MM-DD HH:MM:SS`. -/
def text (m : Moment) : String := String.ofList (dateText m.date ++ ' ' :: clockText m.clock)

/-- `YYYY-MM-DD`. -/
def day (m : Moment) : String := String.ofList (dateText m.date)

/-- `YYYY-MM-DD HH:MM`. -/
def toMinute (m : Moment) : String :=
  String.ofList (dateText m.date ++ ' ' :: padded 2 m.clock.hour ++ ':' :: padded 2 m.clock.minute)

end Moment

end Backdate.Calendar
