import Backdate.Replay.Report
import Backdate.Text.Style

/-!
# Showing reports

One status line per event, with an indented line for each failure it went on
after and one for the failure it ended in; and a summary at the end. Colours are
decoration: without them the same text is shown plain.
-/

namespace Backdate

open Text (paint Style)

/-- The most characters of a message that are shown. -/
def headlineWidth : Nat := 60

/-- The first line of a message, cut to the width of a headline. -/
def headline (message : String) : String :=
  String.ofList ((Text.firstLine message.toList).take headlineWidth)

namespace Report

/-- The mark that a status line starts with. -/
def mark (colour : Bool) (r : Report) : String :=
  if !r.succeeded then paint colour .boldRed "✗"
  else
    match r.kind with
    | .merge => paint colour .boldYellow "⚡"
    | .tag => paint colour .boldCyan "🏷"
    | .change | .deletion => paint colour .boldGreen "✓"

/-- What a status line tells. -/
def body (r : Report) : String :=
  match r.kind with
  | .change | .deletion => r.author.text ++ ": " ++ headline r.label
  | .merge => r.label
  | .tag => "Tagged " ++ r.label

/-- The lines on one event. -/
def render (colour : Bool) (r : Report) : String :=
  let status :=
    r.mark colour ++ " [" ++ paint colour .dimmed r.timestamp.text ++ "] " ++ r.body
  let warnings := r.warnings.map fun w =>
    "\n    " ++ paint colour .yellow "!" ++ " " ++ paint colour .dimmed w
  let failure := r.outcome.describe.toList.map fun d => "\n    " ++ paint colour .red d
  status ++ String.join warnings ++ String.join failure

end Report

/-- A line that sets off a heading. -/
def rule : String := String.ofList (List.replicate 50 '=')

namespace Summary

def heading (colour : Bool) (s : Summary) : String :=
  if s.failures = 0 then paint colour .boldGreen "✓ History replayed successfully"
  else
    paint colour .boldYellow
      ("✗ History replayed with " ++ s.failures.repr ++ " failed event(s)")

/-- The lines on a replay, each ended by a newline. -/
def render (colour : Bool) (s : Summary) : String :=
  let range :=
    match s.first, s.last with
    | some a, some b => "- Date range: " ++ a.day ++ " to " ++ b.day ++ "\n"
    | _, _ => ""
  let tags :=
    if s.tags.isEmpty then "" else "- Tagged version: " ++ String.intercalate ", " s.tags ++ "\n"
  rule ++ "\n" ++ s.heading colour ++ "\n" ++ rule ++ "\n\n" ++
    "Summary:\n" ++
    "- Events replayed: " ++ s.events.repr ++ "\n" ++
    "- Total commits: " ++ s.commits.repr ++ "\n" ++
    "- Merges: " ++ s.merges.repr ++ "\n" ++
    range ++ tags ++
    "\nNext steps:\n" ++
    "1. Verify: git log --oneline --graph --all\n" ++
    "2. Check authors: git shortlog -sn --all\n"

end Summary

end Backdate
