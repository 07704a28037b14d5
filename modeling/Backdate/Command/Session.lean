import Backdate.Plan.Basic
import Backdate.Render
import Backdate.Replay.Run

/-!
# A replay on the console

The entries of a plan are replayed one by one, each report is shown as soon as
it is there, and a heading is shown before the first entry that has it. The
heading that was shown last stays in force until an entry has another one.
-/

namespace Backdate

/-- What is shown while a plan is replayed. -/
inductive Shown where
  | heading (text : String)
  | report (r : Report)
  deriving DecidableEq

/-- The console text of what is shown. -/
def Shown.render (colour : Bool) : Shown → String
  | .heading text => "\n" ++ Text.paint colour .bold ("=== " ++ text ++ " ===") ++ "\n"
  | .report r => r.render colour ++ "\n"

/-- The heading to show before an entry, if the one in force is another. -/
def Entry.newHeading (e : Entry) (inForce : Option String) : Option String :=
  if e.heading = inForce then none else e.heading

/-- The end of a session: what was shown, the summary or the fault that ended it, and the tool as
it was left. -/
structure Session (σ : Type) where
  shown : List Shown
  result : Except Fault Summary
  tool : σ

/-- Replays entries onto a summary, with a heading in force. -/
def Replayer.showFrom {σ : Type} [Tool σ] (r : Replayer) (inForce : Option String) (s : Summary) :
    List Entry → σ → Session σ
  | [], tool => ⟨[], .ok s, tool⟩
  | e :: es, tool =>
    let fresh := e.newHeading inForce
    let before := fresh.toList.map Shown.heading
    match (r.apply e.event).run tool with
    | (.error fault, tool) => ⟨before, .error fault, tool⟩
    | (.ok report, tool) =>
      let rest := r.showFrom (fresh.or inForce) (s.record report) es tool
      { rest with shown := before ++ .report report :: rest.shown }

/-- Replays entries and shows them. -/
def Replayer.session {σ : Type} [Tool σ] (r : Replayer) (es : List Entry) (tool : σ) : Session σ :=
  r.showFrom none {} es tool

end Backdate
