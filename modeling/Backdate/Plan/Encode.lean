import Backdate.Plan.Spec
import Backdate.Toml.Value

/-!
# Writing events down

An event as a table: its kind, then its fields in order with every default
filled in. A heading, and the paths of a change, are left out if there are none.
-/

namespace Backdate

open Toml (Value Entries)

namespace EventSpec

def encodeTexts (ss : List String) : Value := .array (ss.map .text)

/-- Author, day, hour and minute. -/
def encodeWhen (e : EventSpec) : Entries :=
  [("author", .text e.author.text), ("day", .integer e.time.day.toNat),
   ("hour", .integer e.time.hour.toNat), ("minute", .integer e.time.minute.toNat)]

/-- An entry that may be left out. -/
def encodeOption {α : Type} (name : String) (encode : α → Value) : Option α → Entries
  | none => []
  | some a => [(name, encode a)]

def encode (e : EventSpec) : Entries :=
  [("kind", .text e.action.kind.text)] ++ encodeOption "section" .text e.heading ++
    match e.action with
    | .change branch message paths stageAll =>
      [("branch", .text branch)] ++ e.encodeWhen ++ [("message", .text message)] ++
        encodeOption "paths" encodeTexts paths ++ [("stage_all", .boolean stageAll)]
    | .deletion branch message paths =>
      [("branch", .text branch)] ++ e.encodeWhen ++
        [("message", .text message), ("paths", encodeTexts paths)]
    | .merge target source =>
      [("target", .text target), ("source", .text source)] ++ e.encodeWhen
    | .tag name branch message =>
      [("name", .text name), ("branch", .text branch)] ++ e.encodeWhen ++
        [("message", .text message)]

end EventSpec

end Backdate
