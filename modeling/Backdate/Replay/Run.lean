import Backdate.Replay.Report
import Backdate.Tool.Basic

/-!
# Replaying events

A replayer turns events into operations of a tool. An event first goes to its
branch; only there it stages, removes, commits, merges or tags. A step that
fails is reported and the replay goes on; a fault ends it, with the reports and
the state of the tool up to then (`Replayer.replay`).
-/

namespace Backdate

open Calendar

/-- The anchor, the authors and the excluded paths of a replay. -/
structure Replayer where
  anchor : Anchor
  authors : Authors
  /-- Paths that staging everything leaves out. -/
  excluded : List String := []

def mergeMessage (source target : String) : String :=
  "Merge branch '" ++ source ++ "' into " ++ target

/-- What a report on an event is about. -/
def Event.label (e : Event) : String :=
  match e.action with
  | .change message _ => message
  | .deletion message _ => message
  | .merge source => "Merged " ++ source ++ " into " ++ e.branch
  | .tag name _ => name

namespace Replayer

variable {σ : Type} [Tool σ]

/-- Who an event is by, and when. Its author is its committer too. -/
def stamp (r : Replayer) (author : Author) (m : Moment) : Stamp :=
  let who := r.authors.identity author
  ⟨⟨who, who⟩, m.text⟩

/-- The moment of an event, or a fault. -/
def resolve (r : Replayer) (t : EventTime) : Act σ Moment :=
  match r.anchor.resolve t with
  | .ok m => pure m
  | .error why => throw (.unresolved why)

/-- Stages what a change asks for. -/
def stage (r : Replayer) : PathSelection → Act σ Outcome
  | .nothing => pure .success
  | .everything => Tool.stageAllExcept r.excluded
  | .listed paths => Tool.stage paths

/-- Removes paths in turn, and gives a line for each that failed. -/
def removeEach : List String → Act σ (List String)
  | [] => pure []
  | path :: paths => do
    let outcome ← Tool.remove path
    let rest ← removeEach paths
    return outcome.describe.toList ++ rest

/-- What an event does once it is on its branch: the outcome, and the failures it went on after.
A change may be empty, a deletion may not. -/
def act (r : Replayer) (e : Event) (stamp : Stamp) : Act σ (Outcome × List String) :=
  match e.action with
  | .change message paths => do
    let staged ← r.stage paths
    let outcome ← Tool.commit message stamp true
    return (outcome, staged.describe.toList)
  | .deletion message paths => do
    let warnings ← removeEach paths
    let outcome ← Tool.commit message stamp false
    return (outcome, warnings)
  | .merge source => do
    let outcome ← Tool.merge source (mergeMessage source e.branch) stamp
    return (outcome, [])
  | .tag name message => do
    let outcome ← Tool.tag name message stamp
    return (outcome, [])

/-- Replays one event. -/
def perform (r : Replayer) (e : Event) : Act σ Report := do
  let m ← r.resolve e.time
  let switched ← Tool.switch e.branch
  let (outcome, warnings) ←
    if switched.isSuccess then r.act e (r.stamp e.author m) else pure (switched, [])
  return ⟨e.kind, m, e.author, e.label, outcome, warnings⟩

/-- Replays one event, and keeps a note of its failure. -/
def apply (r : Replayer) (e : Event) : Act σ Report := do
  let report ← r.perform e
  if let some line := report.outcome.describe then
    modify (Tool.note ⟨.history, "[" ++ report.timestamp.text ++ "] " ++ line⟩)
  return report

end Replayer

/-- The end of a replay: the events that were reported, in order, the summary or the fault that
ended it, and the tool as it was left. -/
structure Replayed (σ : Type) where
  reports : List (Event × Report)
  result : Except Fault Summary
  tool : σ

/-- Replays events in order onto a summary. -/
def Replayer.replayOnto {σ : Type} [Tool σ] (r : Replayer) (s : Summary) :
    List Event → σ → Replayed σ
  | [], tool => ⟨[], .ok s, tool⟩
  | e :: es, tool =>
    match (r.apply e).run tool with
    | (.error fault, tool) => ⟨[], .error fault, tool⟩
    | (.ok report, tool) =>
      let rest := r.replayOnto (s.record report) es tool
      { rest with reports := (e, report) :: rest.reports }

/-- Replays events in order. -/
def Replayer.replay {σ : Type} [Tool σ] (r : Replayer) (es : List Event) (tool : σ) : Replayed σ :=
  r.replayOnto {} es tool

end Backdate
