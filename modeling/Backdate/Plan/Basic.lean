import Backdate.FileTree
import Backdate.Plan.Schema
import Backdate.Toml.Document

/-!
# Plans

A plan that has been checked: its anchor is a moment, its texts are not blank,
its paths are relative, its hours and minutes are on the clock, and the time of
every event has a moment. So all that can be wrong with a plan is found before
anything is replayed, and it is found in order: the anchor, the authors, the
excluded paths, then event by event.
-/

namespace Backdate

/-- What is wrong with a part of a plan. -/
inductive Problem where
  | blank (field : String)
  | notEmail (author : Author) (email : String)
  | absolutePath (path : String)
  | pathsAndAll
  | noPath
  | selfMerge (branch : String)
  | hour (h : UInt8)
  | minute (m : UInt8)
  | unresolved (why : Anchor.Unresolved)
  deriving DecidableEq

def Problem.message : Problem → String
  | .blank field => field ++ " must not be empty"
  | .notEmail author email =>
    "authors." ++ author.text ++ ".email '" ++ email ++ "' is not an email address"
  | .absolutePath path => "path '" ++ path ++ "' must be relative to the repository root"
  | .pathsAndAll => "'paths' and 'stage_all' are mutually exclusive"
  | .noPath => "deletion must list at least one path"
  | .selfMerge branch => "cannot merge branch '" ++ branch ++ "' into itself"
  | .hour h => "hour " ++ h.toNat.repr ++ " is not a valid hour of day (0-23)"
  | .minute m => "minute " ++ m.toNat.repr ++ " is not a valid minute (0-59)"
  | .unresolved why => why.message

/-- Why a text is no plan. -/
inductive Refusal where
  /-- The document is malformed. -/
  | document
  /-- The document does not fit the schema. -/
  | schema (why : Misfit)
  | anchor (why : Anchor.Malformed)
  | header (why : Problem)
  /-- The event with this number, counted from one. -/
  | event (number : Nat) (why : Problem)

/-- An event, and the heading that it is shown under. -/
structure Entry where
  heading : Option String
  event : Event
  deriving DecidableEq, Repr

/-- A checked plan. -/
structure Plan where
  anchor : Anchor
  authors : Authors
  exclude : List String
  entries : List Entry
  deriving DecidableEq

namespace Plan

def events (p : Plan) : List Event := p.entries.map (·.event)

def checkText (field value : String) : Except Problem Unit :=
  if Text.allBlank value then .error (.blank field) else .ok ()

def checkTime (t : EventTime) : Except Problem Unit :=
  if 23 < t.hour then .error (.hour t.hour)
  else if 59 < t.minute then .error (.minute t.minute)
  else .ok ()

def checkPath (path : String) : Except Problem Unit := do
  checkText "path" path
  if isAbsolutePath path then .error (.absolutePath path)

def checkPaths (paths : List String) : Except Problem Unit := paths.forM checkPath

/-- What a change stages. -/
def selection (paths : Option (List String)) (stageAll : Bool) : Except Problem PathSelection :=
  match paths, stageAll with
  | some _, true => .error .pathsAndAll
  | some paths, false => do
    checkPaths paths
    return .listed paths
  | none, true => .ok .everything
  | none, false => .ok .nothing

/-- The event that is written down, if nothing is wrong with it. -/
def checkEvent (e : EventSpec) : Except Problem Event :=
  match e.action with
  | .change branch message paths stageAll => do
    checkText "branch" branch
    checkText "message" message
    let paths ← selection paths stageAll
    checkTime e.time
    return ⟨branch, e.author, e.time, .change message paths⟩
  | .deletion branch message paths => do
    checkText "branch" branch
    checkText "message" message
    if paths.isEmpty then throw .noPath
    checkPaths paths
    checkTime e.time
    return ⟨branch, e.author, e.time, .deletion message paths⟩
  | .merge target source => do
    checkText "target" target
    checkText "source" source
    if target = source then throw (.selfMerge source)
    checkTime e.time
    return ⟨target, e.author, e.time, .merge source⟩
  | .tag name branch message => do
    checkText "tag name" name
    checkText "branch" branch
    checkText "message" message
    checkTime e.time
    return ⟨branch, e.author, e.time, .tag name message⟩

/-- An entry, if its event is right and its time has a moment. -/
def checkEntry (a : Anchor) (e : EventSpec) : Except Problem Entry := do
  let event ← checkEvent e
  match a.resolve event.time with
  | .error why => .error (.unresolved why)
  | .ok _ => .ok ⟨e.heading, event⟩

/-- The entries from number `k` on, up to the first that is wrong. -/
def checkEntries (a : Anchor) : Nat → List EventSpec → Except Refusal (List Entry)
  | _, [] => .ok []
  | k, e :: es =>
    match checkEntry a e with
    | .error why => .error (.event k why)
    | .ok entry => (checkEntries a (k + 1) es).map (entry :: ·)

def checkIdentity (author : Author) (i : Identity) : Except Problem Unit := do
  checkText ("authors." ++ author.text ++ ".name") i.name
  if !i.email.toList.contains '@' then throw (.notEmail author i.email)

/-- All that is checked before the events. -/
def checkHeader (s : PlanSpec) : Except Problem Unit := do
  checkIdentity .first s.authors.first
  checkIdentity .second s.authors.second
  checkPaths s.exclude

/-- The plan that is written down, if nothing is wrong with it. -/
def ofSpec (s : PlanSpec) : Except Refusal Plan :=
  match Anchor.parse s.start with
  | .error why => .error (.anchor why)
  | .ok anchor =>
    match checkHeader s with
    | .error why => .error (.header why)
    | .ok () => (checkEntries anchor 1 s.events).map fun entries =>
      ⟨anchor, s.authors, s.exclude, entries⟩

/-- The content of a plan file, not checked yet. -/
def readSpec (text : String) : Except Refusal PlanSpec :=
  match Toml.parse text with
  | none => .error .document
  | some es =>
    match Schema.plan es with
    | .error why => .error (.schema why)
    | .ok s => .ok s

/-- The plan that a text holds. -/
def parse (text : String) : Except Refusal Plan := do ofSpec (← readSpec text)

/-- Why a file holds no plan. -/
inductive LoadError where
  | unreadable (path : String) (why : PathError)
  | refused (path : String) (why : Refusal)

/-- The plan in the file that a path leads to, seen from a directory. -/
def load (t : FileTree) (directory path : String) : Except LoadError Plan :=
  match t.read directory path with
  | .error why => .error (.unreadable path why)
  | .ok text =>
    match parse text with
    | .error why => .error (.refused path why)
    | .ok p => .ok p

end Plan

/-- A cause of an error: a text of our own, or a complaint about the document, which is shown as
`<TOML>` and nothing after it. -/
inductive Cause where
  | plain (text : String)
  | document (text : String)
  deriving DecidableEq, Repr

/-- What is wrong and why, from the outside in. -/
def Refusal.causes : Refusal → List Cause
  | .document => [.plain "Failed to parse plan", .document "TOML parse error"]
  | .schema why => [.plain "Failed to parse plan", .document why.message]
  | .anchor why => why.causes.map .plain
  | .header why => [.plain why.message]
  | .event k why => [.plain ("Invalid event #" ++ k.repr), .plain why.message]

def Plan.LoadError.causes : Plan.LoadError → List Cause
  | .unreadable path why => [.plain ("Failed to read plan: " ++ path), .plain why.message]
  | .refused path why => .plain ("Invalid plan: " ++ path) :: why.causes

end Backdate
