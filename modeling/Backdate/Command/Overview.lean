import Backdate.Plan.Basic
import Backdate.Text.Style

/-!
# Looking over a plan

How many events of each kind a plan has, whose they are, and from when to when
they go.
-/

namespace Backdate

open Calendar

structure Overview where
  changes : Nat
  deletions : Nat
  merges : Nat
  tags : Nat
  /-- The events of the first author. -/
  first : Nat
  /-- The events of the second author. -/
  second : Nat
  /-- The earliest and the latest moment. -/
  range : Option (Moment × Moment)
  deriving DecidableEq

/-- The earliest and the latest of some moments. -/
def momentRange : List Moment → Option (Moment × Moment)
  | [] => none
  | m :: ms => some (ms.foldl min m, ms.foldl max m)

namespace Plan

/-- The moments of the events of a plan. -/
def moments (p : Plan) : List Moment :=
  p.events.filterMap fun e => (p.anchor.resolve e.time).toOption

def overview (p : Plan) : Overview where
  changes := p.events.countP fun e => e.kind == .change
  deletions := p.events.countP fun e => e.kind == .deletion
  merges := p.events.countP fun e => e.kind == .merge
  tags := p.events.countP fun e => e.kind == .tag
  first := p.events.countP fun e => e.author == .first
  second := p.events.countP fun e => e.author == .second
  range := momentRange p.moments

/-- The lines on a plan that is right. -/
def renderOverview (colour : Bool) (path : String) (p : Plan) : String :=
  let o := p.overview
  let range := match o.range with
    | none => ""
    | some (a, b) => "  Range:   " ++ a.text ++ " to " ++ b.text ++ "\n"
  let exclude :=
    if p.exclude.isEmpty then "" else "  Exclude: " ++ String.intercalate ", " p.exclude ++ "\n"
  Text.paint colour .boldGreen "✓" ++ " " ++ path ++ "\n" ++
    "  Anchor:  " ++ p.anchor.text ++ "\n" ++
    "  First:   " ++ p.authors.first.text ++ "\n" ++
    "  Second:  " ++ p.authors.second.text ++ "\n" ++
    "  Events:  " ++ p.entries.length.repr ++ " (" ++ o.changes.repr ++ " changes, " ++
      o.deletions.repr ++ " deletions, " ++ o.merges.repr ++ " merges, " ++ o.tags.repr ++
      " tags)\n" ++
    "  Split:   first " ++ o.first.repr ++ " / second " ++ o.second.repr ++ "\n" ++
    range ++ exclude

end Plan

end Backdate
