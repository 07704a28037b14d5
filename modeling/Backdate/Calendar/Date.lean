/-!
# Dates

A date of the proleptic Gregorian calendar, in years -262143 to +262142 (the
year before 1 is the year 0). A date is counted by its **day number**, the days
since 1 March of the year 0: years counted from March put the leap day last, so
the count needs no case for it.
-/

namespace Backdate.Calendar

def minYear : Int := -262143

def maxYear : Int := 262142

def isLeapYear (y : Int) : Bool := y % 4 == 0 && (y % 100 != 0 || y % 400 == 0)

/-- The length of a month. -/
def monthDays (y : Int) (month : Nat) : Nat :=
  match month with
  | 2 => if isLeapYear y then 29 else 28
  | 4 | 6 | 9 | 11 => 30
  | _ => 31

/-- Year, month and day name a day of the calendar. -/
def IsDate (year : Int) (month day : Nat) : Prop :=
  minYear ≤ year ∧ year ≤ maxYear ∧ 1 ≤ month ∧ month ≤ 12 ∧ 1 ≤ day ∧ day ≤ monthDays year month

instance (year : Int) (month day : Nat) : Decidable (IsDate year month day) :=
  inferInstanceAs (Decidable (_ ∧ _ ∧ _ ∧ _ ∧ _ ∧ _))

/-- A day of the calendar. -/
structure Date where
  year : Int
  month : Nat
  day : Nat
  isDate : IsDate year month day
  deriving DecidableEq

namespace Date

/-- The date of the given year, month and day, if there is such a day. -/
def of? (year : Int) (month day : Nat) : Option Date :=
  if h : IsDate year month day then some ⟨year, month, day, h⟩ else none

/-- The days before the month that is `m` months after March, in a year that starts in March. -/
def daysBefore (m : Int) : Int := (153 * m + 2) / 5

/-- The days from 1 March of the year 0 to the given day. -/
def countDays (year : Int) (month day : Nat) : Int :=
  let y := if month ≤ 2 then year - 1 else year
  let m : Int := if month ≤ 2 then month + 9 else month - 3
  365 * y + y / 4 - y / 100 + y / 400 + daysBefore m + (day - 1)

/-- The day number of a date. -/
def number (d : Date) : Int := countDays d.year d.month d.day

/-- The year that starts in March and the day in it, for a day of a cycle of 400 years. -/
def yearOfCycle (n : Int) : Int := (n - n / 1460 + n / 36524 - n / 146096) / 365

/-- Year, month and day of a day number. -/
def civil (n : Int) : Int × Nat × Nat :=
  let cycle := n / 146097
  let inCycle := n % 146097
  let y := yearOfCycle inCycle
  let inYear := inCycle - (365 * y + y / 4 - y / 100)
  let m := (5 * inYear + 2) / 153
  let day := inYear - daysBefore m + 1
  let month := if m < 10 then m + 3 else m - 9
  let year := y + cycle * 400 + (if month ≤ 2 then 1 else 0)
  (year, month.toNat, day.toNat)

/-- The date with a day number, if the calendar reaches that far. -/
def ofNumber? (n : Int) : Option Date :=
  let (y, m, d) := civil n
  of? y m d

end Date

end Backdate.Calendar
