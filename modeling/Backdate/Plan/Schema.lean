import Backdate.Plan.Spec
import Backdate.Text.Quoted
import Backdate.Toml.Value

/-!
# The schema of a plan

Which values of a document make a plan, and what is wrong with the others.

* A record is written as a table, or as an array of its fields in order. Unknown
  keys are left out of account.
* Of several bad values the first in the document is named; only if there is
  none, the first field that is missing.
* The kind of an event is looked at before all else in it.
-/

namespace Backdate

open Toml (Value Entries)

/-- Why a value does not fit. -/
inductive Misfit where
  | wrongType (found : Value) (want : String)
  | wrongValue (found : Value) (want : String)
  | missing (field : String)
  /-- An array that ends at the place of a field. -/
  | tooShort (length : Nat) (want : String)
  | tooLong (length fields : Nat)
  | unknown (name : String) (known : List String)

/-- What kind of value it is, with the value itself where it is short. -/
def Toml.Value.describe : Value → String
  | .text s => "string " ++ Text.quoted s
  | .integer n => "integer `" ++ n.repr ++ "`"
  | .float x => "floating point `" ++ x.text ++ "`"
  | .boolean b => "boolean `" ++ (if b then "true" else "false") ++ "`"
  | .time _ => "map"
  | .array _ => "sequence"
  | .table _ => "map"

namespace Misfit

def elements (n : Nat) : String := n.repr ++ (if n = 1 then " element" else " elements")

/-- The names one may choose from. -/
def choice (known : List String) : String :=
  let names := known.map fun k => "`" ++ k ++ "`"
  match names with
  | [a, b] => a ++ " or " ++ b
  | names => "one of " ++ String.intercalate ", " names

def message : Misfit → String
  | .wrongType found want => "invalid type: " ++ found.describe ++ ", expected " ++ want
  | .wrongValue found want => "invalid value: " ++ found.describe ++ ", expected " ++ want
  | .missing field => "missing field `" ++ field ++ "`"
  | .tooShort n want => "invalid length " ++ n.repr ++ ", expected " ++ want
  | .tooLong n fields =>
    "invalid length " ++ n.repr ++ ", expected " ++ elements fields ++ " in sequence"
  | .unknown name known => "unknown variant `" ++ name ++ "`, expected " ++ choice known

end Misfit

/-- A decoder of values. -/
abbrev Decoder (α : Type) := Value → Except Misfit α

namespace Schema

def text : Decoder String
  | .text s => .ok s
  | v => .error (.wrongType v "a string")

def boolean : Decoder Bool
  | .boolean b => .ok b
  | v => .error (.wrongType v "a boolean")

def word8 : Decoder UInt8
  | .integer n =>
    if 0 ≤ n ∧ n ≤ 255 then .ok (UInt8.ofNat n.toNat)
    else .error (.wrongValue (.integer n) "u8")
  | v => .error (.wrongType v "u8")

def word32 : Decoder UInt32
  | .integer n =>
    if 0 ≤ n ∧ n ≤ 4294967295 then .ok (UInt32.ofNat n.toNat)
    else .error (.wrongValue (.integer n) "u32")
  | v => .error (.wrongType v "u32")

def list {α : Type} (item : Decoder α) : Decoder (List α)
  | .array items => items.mapM item
  | v => .error (.wrongType v "a sequence")

/-- The key that a date or a time has when it is taken for a table. -/
def timeKey : String := "$__toml_private_datetime"

def authorName (name : String) : Except Misfit Author :=
  if name = "first" then .ok .first
  else if name = "second" then .ok .second
  else .error (.unknown name ["first", "second"])

/-- An author: a name, or a table with the name as its key and an empty table behind it. -/
def author : Decoder Author
  | .text s => authorName s
  | .time _ => authorName timeKey
  | .table [(name, v)] => do
    let a ← authorName name
    match v with
    | .table [] => .ok a
    | v => .error (.wrongType v "unit")
  | .table es => .error (.wrongValue (.table es) "map with a single key")
  | v => .error (.wrongType v "string or map")

/-- The fields of a record as they were found, and what to say of one that is not there. -/
structure Fields where
  entries : Entries
  absent : String → Misfit

/-- The values of the fields of an array, in order. -/
def Fields.ofArray (names : List String) (want : String) (items : List Value) : Fields :=
  ⟨names.zip items, fun name => .tooShort (names.idxOf name) want⟩

/-- The values of the fields of a table. -/
def Fields.ofTable (entries : Entries) : Fields := ⟨entries, .missing⟩

/-- The fields of a record that has a name. -/
def fields (record : String) (names : List String) : Decoder Fields
  | .table es => .ok (.ofTable es)
  | .time t => .ok (.ofTable [(timeKey, .text t)])
  | .array items =>
    .ok (.ofArray names (record ++ " with " ++ Misfit.elements names.length) items)
  | v => .error (.wrongType v record)

namespace Fields

/-- Goes through the values in the order they were found, up to the first that is bad. -/
def vet (f : Fields) (checks : List (String × Decoder Unit)) : Except Misfit Unit :=
  f.entries.forM fun (name, v) =>
    match checks.lookup name with
    | none => .ok ()
    | some check => check v

def required {α : Type} (f : Fields) (name : String) (decode : Decoder α) : Except Misfit α :=
  match f.entries.lookup name with
  | none => .error (f.absent name)
  | some v => decode v

def optional {α : Type} (f : Fields) (name : String) (decode : Decoder α) :
    Except Misfit (Option α) :=
  match f.entries.lookup name with
  | none => .ok none
  | some v => (decode v).map some

end Fields

/-- A decoder for its errors only. -/
def check {α : Type} (decode : Decoder α) : Decoder Unit := fun v => (decode v).map fun _ => ()

def identity : Decoder Identity := fun v => do
  let f ← fields "struct AuthorIdentity" ["name", "email"] v
  f.vet [("name", check text), ("email", check text)]
  return ⟨← f.required "name" text, ← f.required "email" text⟩

def authors : Decoder Authors := fun v => do
  let f ← fields "struct Authors" ["first", "second"] v
  f.vet [("first", check identity), ("second", check identity)]
  return ⟨← f.required "first" identity, ← f.required "second" identity⟩

/-- The section that spells the anchor. -/
def anchor : Decoder String := fun v => do
  let f ← fields "struct AnchorSection" ["start"] v
  f.vet [("start", check text)]
  f.required "start" text

/-- The section with the excluded paths. -/
def exclude : Decoder (List String) := fun v => do
  let f ← fields "struct ReplaySection" ["exclude"] v
  f.vet [("exclude", check (list text))]
  return (← f.optional "exclude" (list text)).getD []

def kind : Decoder Kind
  | .text s =>
    if s = "change" then .ok .change
    else if s = "deletion" then .ok .deletion
    else if s = "merge" then .ok .merge
    else if s = "tag" then .ok .tag
    else .error (.unknown s ["change", "deletion", "merge", "tag"])
  | v => .error (.wrongType v "variant identifier")

/-- The name of a kind of event where its fields are told of. -/
def kindTitle : Kind → String
  | .change => "Change"
  | .deletion => "Deletion"
  | .merge => "Merge"
  | .tag => "Tag"

/-- The fields of an event in order. -/
def fieldNames : Kind → List String
  | .change =>
    ["section", "branch", "author", "day", "hour", "minute", "message", "paths", "stage_all"]
  | .deletion => ["section", "branch", "author", "day", "hour", "minute", "message", "paths"]
  | .merge => ["section", "target", "source", "author", "day", "hour", "minute"]
  | .tag => ["section", "name", "branch", "author", "day", "hour", "minute", "message"]

/-- What every field of an event must be. -/
def fieldChecks : List (String × Decoder Unit) :=
  [("section", check text), ("branch", check text), ("target", check text),
   ("source", check text), ("name", check text), ("author", check author),
   ("day", check word32), ("hour", check word8), ("minute", check word8),
   ("message", check text), ("paths", check (list text)), ("stage_all", check boolean)]

/-- The branch of a tag that names none. -/
def tagBranch : String := "main"

/-- The fields of an event of a given kind. Fields of other kinds are unknown keys to it. -/
def eventFields (k : Kind) (f : Fields) : Except Misfit EventSpec := do
  f.vet (fieldChecks.filter fun c => (fieldNames k).contains c.1)
  let heading ← f.optional "section" text
  match k with
  | .change =>
    let branch ← f.required "branch" text
    let author ← f.required "author" author
    let day ← f.required "day" word32
    let hour ← f.required "hour" word8
    let minute ← f.optional "minute" word8
    let message ← f.required "message" text
    let paths ← f.optional "paths" (list text)
    let stageAll ← f.optional "stage_all" boolean
    return ⟨heading, author, ⟨day, hour, minute.getD 0⟩,
      .change branch message paths (stageAll.getD false)⟩
  | .deletion =>
    let branch ← f.required "branch" text
    let author ← f.required "author" author
    let day ← f.required "day" word32
    let hour ← f.required "hour" word8
    let minute ← f.optional "minute" word8
    let message ← f.required "message" text
    let paths ← f.required "paths" (list text)
    return ⟨heading, author, ⟨day, hour, minute.getD 0⟩, .deletion branch message paths⟩
  | .merge =>
    let target ← f.required "target" text
    let source ← f.required "source" text
    let author ← f.required "author" author
    let day ← f.required "day" word32
    let hour ← f.required "hour" word8
    let minute ← f.optional "minute" word8
    return ⟨heading, author, ⟨day, hour, minute.getD 0⟩, .merge target source⟩
  | .tag =>
    let name ← f.required "name" text
    let branch ← f.optional "branch" text
    let author ← f.required "author" author
    let day ← f.required "day" word32
    let hour ← f.required "hour" word8
    let minute ← f.optional "minute" word8
    let message ← f.required "message" text
    return ⟨heading, author, ⟨day, hour, minute.getD 0⟩,
      .tag name (branch.getD tagBranch) message⟩

/-- An event written as a table. -/
def eventTable (es : Entries) : Except Misfit EventSpec := do
  let k ← Fields.required (.ofTable es) "kind" kind
  eventFields k (.ofTable (es.filter fun e => e.1 != "kind"))

/-- An event written as an array: its kind, then its fields. Here too many fields do not fit. -/
def eventArray : List Value → Except Misfit EventSpec
  | [] => .error (.missing "kind")
  | v :: items => do
    let k ← kind v
    let names := fieldNames k
    let want := "struct variant EventSpec::" ++ kindTitle k ++ " with " ++
      Misfit.elements names.length
    let spec ← eventFields k (.ofArray names want items)
    if names.length < items.length then .error (.tooLong items.length names.length) else .ok spec

def event : Decoder EventSpec
  | .table es => eventTable es
  | .time t => eventTable [(timeKey, .text t)]
  | .array items => eventArray items
  | v => .error (.wrongType v "internally tagged enum EventSpec")

/-- A whole plan. -/
def plan (es : Entries) : Except Misfit PlanSpec := do
  let f := Fields.ofTable es
  f.vet [("anchor", check anchor), ("authors", check authors), ("replay", check exclude),
    ("events", check (list event))]
  let start ← f.required "anchor" anchor
  let authors ← f.required "authors" authors
  let exclude ← f.optional "replay" exclude
  let events ← f.optional "events" (list event)
  return ⟨start, authors, exclude.getD [], events.getD []⟩

end Schema

end Backdate
