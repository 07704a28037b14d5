import Backdate.Command.Arguments
import Backdate.Command.Overview
import Backdate.Command.Session
import Backdate.Git
import Backdate.Recorder

/-!
# Running a command

What the program answers to its arguments, in a setting that holds all it can
see: the files, the working directory, whether there is a git and what it
replies. Nothing is run before the plan is found to be right and the repository
is known; a dry run goes to a permissive recorder and to no git at all.
-/

namespace Backdate

/-- What a run of the program can see. -/
structure Setting where
  files : FileTree
  /-- The working directory, as an absolute path. It leads to no directory if that is gone. -/
  directory : String
  /-- Whether a git is found. -/
  hasGit : Bool := true
  /-- The replies of git. -/
  script : List Reply := []
  colour : Bool := false
  /-- Whether notes are shown. -/
  log : Bool := false

/-- What a run of the program leaves behind. -/
structure Answer where
  exit : Nat
  stdout : String
  stderr : String
  /-- The git processes that were run, oldest first. -/
  calls : List Call := []
  deriving DecidableEq

/-- Why a command ends early. -/
inductive CommandError where
  | load (why : Plan.LoadError)
  /-- The working directory is gone. -/
  | noDirectory
  | clock (hour minute : UInt8)
  | replay (why : Fault)
  | noGit
  | notRepository (path : String)

def CommandError.causes : CommandError → List Cause
  | .load why => why.causes
  | .noDirectory => [.plain "Failed to get current directory", .plain PathError.notFound.message]
  | .clock hour minute => [.plain (EventTime.clockFace hour minute ++ " is not a valid time of day")]
  | .replay why => why.causes.map .plain
  | .noGit => [.plain "git not found in PATH", .plain "cannot find binary path"]
  | .notRepository path => [.plain (path ++ " is not a git repository")]

/-- A text with its first line after `first` and the others after `others`. -/
def indented (first others text : String) : String :=
  first ++ String.intercalate ("\n" ++ others)
    ((text.toList.splitOn '\n').map String.ofList)

/-- The causes below the outermost, one to a line, numbered if there are several. A complaint about
the document ends the text. -/
def renderCauses (numbered : Bool) : Nat → List Cause → String
  | _, [] => ""
  | k, c :: cs =>
    let number := k.repr
    let margin := String.ofList (List.replicate (5 - number.length) ' ') ++ number ++ ": "
    match c with
    | .document _ => (if numbered then margin else "    ") ++ "<TOML>"
    | .plain text =>
      (if numbered then indented margin "       " text else indented "    " "    " text) ++ "\n" ++
        renderCauses numbered (k + 1) cs

/-- How an error is shown. -/
def renderError : List Cause → String
  | [] => ""
  | .document _ :: _ => "Error: <TOML>"
  | .plain text :: causes =>
    "Error: " ++ text ++ "\n" ++
      if causes.isEmpty then ""
      else "\nCaused by:\n" ++ renderCauses (1 < causes.length) 0 causes

/-- What a command has written so far. -/
structure Progress where
  stdout : String := ""
  notes : List Note := []
  calls : List Call := []

/-- The answer of a command that ends early, or else well. -/
def Progress.answer (p : Progress) (log : Bool) (error : Option CommandError) : Answer where
  exit := if error.isSome then 1 else 0
  stdout := p.stdout
  stderr :=
    (if log then String.join (p.notes.map fun n => n.line ++ "\n") else "") ++
      match error with
      | none => ""
      | some e => renderError e.causes
  calls := p.calls

namespace Setting

/-- The text before a replay. -/
def header (colour : Bool) (p : Plan) (repository : String) (dryRun : Bool) : String :=
  rule ++ "\n" ++ Text.paint colour .bold "History Replay" ++ "\n" ++ rule ++ "\n\n" ++
    "Start date: " ++ p.anchor.start.toMinute ++ "\n" ++
    "First author: " ++ p.authors.first.text ++ "\n" ++
    "Second author: " ++ p.authors.second.text ++ "\n" ++
    "Repository: " ++ repository ++ "\n" ++
    if dryRun then Text.paint colour .yellow "Dry run: git will not be invoked" ++ "\n" else ""

/-- The text of what was shown. -/
def showAll (colour : Bool) (shown : List Shown) : String :=
  String.join (shown.map (Shown.render colour))

/-- Replays a plan onto a permissive recorder and lists what was recorded. -/
def dryRun (s : Setting) (p : Plan) (r : Replayer) (head : String) :
    Progress × Option CommandError :=
  let done := r.session p.entries ({ permissive := true } : Recorder)
  let out := head ++ showAll s.colour done.shown
  match done.result with
  | .error why => ({ stdout := out, notes := done.tool.notes }, some (.replay why))
  | .ok summary =>
    let calls := String.join (done.tool.calls.map fun i => "  " ++ i.text ++ "\n")
    let out := out ++ "\n" ++ "\n" ++ Text.paint s.colour .bold "Invocations:" ++ "\n" ++ calls ++
      "\n" ++ summary.render s.colour ++ "\n"
    ({ stdout := out, notes := done.tool.notes }, none)

/-- What has been written, and run, when git has come this far. -/
def progress (stdout : String) (g : Git) : Progress :=
  ⟨stdout, g.notes, g.ran.map (·.call)⟩

/-- Replays a plan onto git. -/
def gitRun (s : Setting) (p : Plan) (r : Replayer) (repository head : String) :
    Progress × Option CommandError :=
  if !s.hasGit then ({ stdout := head }, some .noGit)
  else
    let g : Git := { script := s.script, blocked := s.files.blocked? s.directory repository }
    match Git.isRepository.run g with
    | (.error why, g) => (progress head g, some (.replay why))
    | (.ok false, g) => (progress head g, some (.notRepository repository))
    | (.ok true, g) =>
      let done := r.session p.entries g
      let out := head ++ showAll s.colour done.shown
      match done.result with
      | .error why => (progress out done.tool, some (.replay why))
      | .ok summary =>
        let (branch, g) := Git.currentBranch.run done.tool
        let left := match branch with
          | .ok branch => "\nLeft on branch: " ++ branch ++ "\n"
          | .error _ => ""
        (progress (out ++ "\n" ++ left ++ "\n" ++ summary.render s.colour ++ "\n") g, none)

/-- The repository of a replay: the one that is named, or the working directory, if it is there. -/
def repository? (s : Setting) (named : Option String) : Option String :=
  named.or (if s.files.hasDirectory s.directory s.directory then some s.directory else none)

/-- The plan's own file is left out of the history too, if it lies in the repository. -/
def replay (s : Setting) (path : String) (named : Option String) (dry : Bool) :
    Progress × Option CommandError :=
  match Plan.load s.files s.directory path with
  | .error why => ({}, some (.load why))
  | .ok p =>
    match s.repository? named with
    | none => ({}, some .noDirectory)
    | some repository =>
      let own := s.files.relative? s.directory path repository
      let r : Replayer := ⟨p.anchor, p.authors, p.exclude ++ own.toList⟩
      let head := header s.colour p repository dry
      if dry then s.dryRun p r head else s.gitRun p r repository head

def check (s : Setting) (path : String) : Progress × Option CommandError :=
  match Plan.load s.files s.directory path with
  | .error why => ({}, some (.load why))
  | .ok p => ({ stdout := p.renderOverview s.colour path }, none)

/-- The time of day is looked at before the plan is. -/
def when (s : Setting) (path : String) (t : EventTime) : Progress × Option CommandError :=
  if 23 < t.hour ∨ 59 < t.minute then ({}, some (.clock t.hour t.minute))
  else
    match Plan.load s.files s.directory path with
    | .error why => ({}, some (.load why))
    | .ok p =>
      match p.anchor.resolve t with
      | .error why => ({}, some (.replay (.unresolved why)))
      | .ok m => ({ stdout := m.text ++ "\n" }, none)

def run (s : Setting) : Command → Progress × Option CommandError
  | .replay path repository dry => s.replay path repository dry
  | .check path => s.check path
  | .when path t => s.when path t

end Setting

def versionText : String := "history-replay 0.1.0\n"

def usageText : String :=
  "Replay a planned, backdated git history\n\n" ++
  "Usage: history-replay <COMMAND>\n\n" ++
  "Commands:\n" ++
  "  replay  Replay every event of a plan against a git repository\n" ++
  "  check   Validate a plan file without touching any repository\n" ++
  "  when    Show the timestamp an event offset resolves to\n" ++
  "  help    Print this message or the help of the given subcommand(s)\n\n" ++
  "Options:\n" ++
  "  -h, --help     Print help\n" ++
  "  -V, --version  Print version\n"

/-- What the program answers to its arguments. -/
def answer (s : Setting) (args : List String) : Answer :=
  match Request.parse args with
  | none => ⟨2, "", usageText, []⟩
  | some .help => ⟨0, usageText, "", []⟩
  | some .version => ⟨0, versionText, "", []⟩
  | some (.command c) =>
    let (p, error) := s.run c
    p.answer s.log error

end Backdate
