import Backdate.Event
import Backdate.Tool.Outcome

/-!
# Reports and summaries

A report says what became of one event. A summary adds up reports in order:
changes and deletions count as commits whether or not they were accepted, merges
and tags only if they were, and the first and the last moment are those of the
reports in the order of time.
-/

namespace Backdate

open Calendar

/-- What became of one event. -/
structure Report where
  kind : Kind
  timestamp : Moment
  author : Author
  /-- The message of a commit, or what a merge or a tag did. -/
  label : String
  outcome : Outcome
  /-- The failures that the event went on after. -/
  warnings : List String
  deriving DecidableEq

namespace Report

def countsAsCommit (r : Report) : Bool := r.kind == .change || r.kind == .deletion

def succeeded (r : Report) : Bool := r.outcome.isSuccess

end Report

/-- The totals of a replay. -/
structure Summary where
  events : Nat := 0
  commits : Nat := 0
  merges : Nat := 0
  tags : List String := []
  failures : Nat := 0
  first : Option Moment := none
  last : Option Moment := none
  deriving DecidableEq

namespace Summary

/-- One report more. -/
def record (s : Summary) (r : Report) : Summary where
  events := s.events + 1
  commits := if r.countsAsCommit then s.commits + 1 else s.commits
  merges := if r.succeeded && r.kind == .merge then s.merges + 1 else s.merges
  tags := if r.succeeded && r.kind == .tag then s.tags ++ [r.label] else s.tags
  failures := if r.succeeded then s.failures else s.failures + 1
  first := some (match s.first with | none => r.timestamp | some t => min t r.timestamp)
  last := some (match s.last with | none => r.timestamp | some t => max t r.timestamp)

end Summary

end Backdate
