import Backdate.Calendar.Printer
import Backdate.Calendar.Reader

/-!
# Event times and the anchor

An event's time is a day after the anchor and a time of day. The anchor is day 0
at the **baseline hour**, nine o'clock, so an event at day `d`, `h:m` happens `d`
days, `h - 9` hours and `m` minutes after it (`EventTime.span?`,
`Anchor.resolve`).
-/

namespace Backdate

open Calendar

/-- A day after the anchor and a time of day. The hour and the minute are not limited here. -/
structure EventTime where
  day : UInt32
  hour : UInt8
  minute : UInt8
  deriving DecidableEq, Repr

namespace EventTime

/-- Event times are ordered by day, then hour, then minute. -/
instance : Ord EventTime :=
  ⟨fun a b => (compare a.day b.day).then ((compare a.hour b.hour).then (compare a.minute b.minute))⟩

/-- Hour and minute in two digits each. -/
def clockFace (hour minute : UInt8) : String :=
  String.ofList (padded 2 hour.toNat ++ ':' :: padded 2 minute.toNat)

def text (t : EventTime) : String :=
  "day " ++ t.day.toNat.repr ++ " " ++ clockFace t.hour t.minute

/-- The hour of the anchor. -/
def baselineHour : Int := 9

/-- The longest span that can be counted: milliseconds have to fit a signed word of 64 bits. -/
def maxSpan : Int := 9223372036854775807 / 1000

/-- A number of seconds, if it can be counted. -/
def counted (n : Int) : Option Int := if -maxSpan ≤ n ∧ n ≤ maxSpan then some n else none

/-- The seconds from the anchor to an event. -/
def span? (t : EventTime) : Option Int := do
  let days ← counted (86400 * t.day.toNat)
  let hours ← counted (days + 3600 * (t.hour.toNat - baselineHour))
  counted (hours + 60 * t.minute.toNat)

end EventTime

/-- Day 0 at the baseline hour. -/
structure Anchor where
  start : Moment
  deriving DecidableEq

namespace Anchor

/-- A text that spells no anchor. -/
structure Malformed where
  text : String
  why : ReadError
  deriving DecidableEq, Repr

/-- What is wrong and why, from the outside in. -/
def Malformed.causes (e : Malformed) : List String :=
  ["Invalid anchor timestamp '" ++ e.text ++ "'", e.why.message]

/-- Why an event's time has no moment. -/
inductive Unresolved where
  /-- The span to the anchor cannot be counted. -/
  | span (time : EventTime)
  /-- The calendar does not reach that far from the anchor. -/
  | calendar (time : EventTime) (anchor : Anchor)
  deriving DecidableEq

/-- The anchor that a text spells, blanks around it left out. -/
def parse (s : String) : Except Malformed Anchor :=
  let cs := Text.trim s.toList
  match Moment.read cs with
  | .ok m => .ok ⟨m⟩
  | .error e => .error ⟨String.ofList cs, e⟩

def text (a : Anchor) : String := a.start.text

def Unresolved.message : Unresolved → String
  | .span t => "Offset " ++ t.text ++ " out of range"
  | .calendar t a => "Offset " ++ t.text ++ " overflows the calendar from " ++ a.text

/-- The moment of an event. -/
def resolve (a : Anchor) (t : EventTime) : Except Unresolved Moment :=
  match t.span? with
  | none => .error (.span t)
  | some n =>
    match a.start.add? n with
    | none => .error (.calendar t a)
    | some m => .ok m

end Anchor

end Backdate
