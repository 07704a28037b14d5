import Backdate.Calendar.Date

/-!
# Moments

A moment is a date and a time of day to the second, without a time zone. Any
minute may end in a leap second, `:60`, which comes after `:59` and before the
next minute. Moments are ordered as they follow each other (`rank`), and a span
of seconds is counted over ordinary seconds only (`add?`).
-/

namespace Backdate.Calendar

/-- A time of day, with second 60 for a leap second. -/
structure Clock where
  hour : Nat
  minute : Nat
  second : Nat
  hour_lt : hour < 24
  minute_lt : minute < 60
  second_le : second ≤ 60
  deriving DecidableEq

namespace Clock

def of? (hour minute second : Nat) : Option Clock :=
  if h : hour < 24 ∧ minute < 60 ∧ second ≤ 60 then some ⟨hour, minute, second, h.1, h.2.1, h.2.2⟩
  else none

/-- The ordinary seconds before the time, counting a leap second with the next minute. -/
def seconds (c : Clock) : Nat := c.hour * 3600 + c.minute * 60 + c.second

/-- The time of an ordinary second of the day. -/
def ofSeconds (n : Nat) (h : n < 86400) : Clock :=
  ⟨n / 3600, n / 60 % 60, n % 60, by omega, by omega, by omega⟩

end Clock

/-- A date and a time of day. -/
structure Moment where
  date : Date
  clock : Clock
  deriving DecidableEq

namespace Moment

/-- The place of a moment among all, with room for a leap second in every minute. -/
def rank (m : Moment) : Int :=
  ((m.date.number * 24 + m.clock.hour) * 60 + m.clock.minute) * 61 + m.clock.second

instance : Ord Moment := ⟨fun a b => compare a.rank b.rank⟩

instance : LE Moment := ⟨fun a b => a.rank ≤ b.rank⟩

instance (a b : Moment) : Decidable (a ≤ b) := inferInstanceAs (Decidable (a.rank ≤ b.rank))

instance : Min Moment := ⟨fun a b => if a ≤ b then a else b⟩

instance : Max Moment := ⟨fun a b => if a ≤ b then b else a⟩

def isLeap (m : Moment) : Bool := m.clock.second == 60

/-- The ordinary seconds from the calendar's first 1 March to a moment, counting a leap second
with the next minute. -/
def count (m : Moment) : Int := m.date.number * 86400 + m.clock.seconds

/-- The moment of an ordinary second, if the calendar reaches that far. -/
def ofCount? (n : Int) : Option Moment :=
  (Date.ofNumber? (n / 86400)).map fun d =>
    ⟨d, Clock.ofSeconds (n % 86400).toNat (by omega)⟩

/-- The moment a number of seconds away, if the calendar reaches that far. From a leap second,
later moments are counted from `:59` and earlier ones from the minute that follows. -/
def add? (m : Moment) (span : Int) : Option Moment :=
  if span = 0 then some m
  else if m.isLeap ∧ 0 < span then ofCount? (m.count - 1 + span)
  else ofCount? (m.count + span)

end Moment

end Backdate.Calendar
