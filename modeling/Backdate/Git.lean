import Backdate.Text.Utf8
import Backdate.Tool.Basic

/-!
# Git

The tool that runs git. How git itself behaves is no part of this: it is a
**script** of replies, and each process that starts takes the next one (a script
that is used up answers with success and silence). What is modelled is which
processes are started, with which arguments and variables, and what is made of
their replies.

* A process with a NUL in an argument or a variable does not start, and none
  starts where the working directory cannot be entered. Either is a fault, and
  neither takes a reply. All others are assumed to start: there is no limit here
  to the length of arguments and variables, or to what the system can run.
* No exit code and no output is a fault. Every process ends with an exit code;
  none is ended by a signal.
-/

namespace Backdate

/-- What a process answers. -/
structure Reply where
  exit : Int := 0
  stdout : List UInt8 := []
  stderr : List UInt8 := []
  deriving DecidableEq, Repr

namespace Reply

def succeeded (r : Reply) : Bool := r.exit == 0

/-- What was written to standard output. -/
def output (r : Reply) : String := Text.decodeLossy r.stdout

/-- What was written to standard error. -/
def complaint (r : Reply) : String := Text.decodeLossy r.stderr

/-- What a failed process has to say: its complaint, or its output if that is blank. -/
def detail (r : Reply) : String := if Text.allBlank r.complaint then r.output else r.complaint

end Reply

/-- A git command: its arguments, and the variables set for it alone. -/
structure Call where
  args : List String
  environment : List (String × String) := []
  deriving DecidableEq, Repr

/-- A command that was run, with its reply. -/
structure Process where
  call : Call
  reply : Reply
  deriving DecidableEq, Repr

/-- The state of a run of git. -/
structure Git where
  /-- The replies of the processes still to come. -/
  script : List Reply := []
  /-- Why the working directory cannot be entered, if it cannot. -/
  blocked : Option PathError := none
  /-- The processes so far, oldest first. -/
  ran : List Process := []
  notes : List Note := []
  deriving DecidableEq

/-- Whether one text occurs in another. -/
def Text.occurs (p : List Char) : List Char → Bool
  | [] => p.isEmpty
  | c :: cs => p.isPrefixOf (c :: cs) || occurs p cs

namespace Git

def log (text : String) (g : Git) : Git := { g with notes := g.notes ++ [⟨.git, text⟩] }

/-- Starts a process and waits for its reply. -/
def start (call : Call) : Act Git Reply := ExceptT.mk fun g =>
  let g := g.log ("git " ++ String.intercalate " " call.args)
  let fault why := (.error (.notStarted (call.args.headD "") why), g)
  if call.args.any Text.hasNul || call.environment.any fun v => Text.hasNul v.2 then fault .nul
  else
    match g.blocked with
    | some why => fault (.directory why)
    | none =>
      let reply := g.script.headD {}
      (.ok reply, { g with script := g.script.tail, ran := g.ran ++ [⟨call, reply⟩] })

/-- Runs a command as one step. -/
def run (step : String) (call : Call) : Act Git Outcome := do
  let reply ← start call
  if reply.succeeded then return .success
  modify (log (step ++ " exited with exit status: " ++ reply.exit.repr ++ ": " ++
    Text.trimmed reply.detail))
  return .failure step reply.detail

/-- Whether the working directory belongs to a repository. -/
def isRepository : Act Git Bool := do
  return (← start ⟨["rev-parse", "--git-dir"], []⟩).succeeded

def branchExists (branch : String) : Act Git Bool := do
  return (← start ⟨["rev-parse", "--verify", "--quiet", "refs/heads/" ++ branch], []⟩).succeeded

/-- The branch that is checked out, empty if there is none. -/
def currentBranch : Act Git String := do
  let reply ← start ⟨["branch", "--show-current"], []⟩
  if reply.succeeded then return Text.trimmed reply.output
  throw .noCurrentBranch

/-- Only a missing branch is created; any other trouble is the outcome. -/
def switch (branch : String) : Act Git Outcome := do
  let outcome ← run "checkout" ⟨["checkout", "-q", branch, "--"], []⟩
  if outcome.isSuccess then return outcome
  if ← branchExists branch then return outcome
  modify (log ("branch " ++ branch ++ " missing, creating it"))
  run "checkout -b" ⟨["checkout", "-q", "-b", branch], []⟩

/-- Stages paths one at a time, and gives a line for each that failed. -/
def stageEach : List String → Act Git (List String)
  | [] => return []
  | path :: paths => do
    let outcome ← run "add" ⟨["add", "--", path], []⟩
    let rest ← stageEach paths
    match outcome with
    | .success => return rest
    | .failure _ detail => return (path ++ ": " ++ Text.trimmed detail) :: rest

/-- A path that cannot be staged does not keep the others out. -/
def stage (paths : List String) : Act Git Outcome := do
  let failures ← stageEach paths
  if failures.isEmpty then return .success
  return .failure "add" (Text.joinLines failures)

/-- Takes paths out of the index, up to the first that fails. -/
def unstageEach : List String → Act Git Outcome
  | [] => return .success
  | path :: paths => do
    let outcome ← run "reset" ⟨["reset", "-q", "--", path], []⟩
    if outcome.isSuccess then unstageEach paths else return outcome

def stageAllExcept (excluded : List String) : Act Git Outcome := do
  let outcome ← run "add" ⟨["add", "-A", "--", "."], []⟩
  if outcome.isSuccess then unstageEach excluded else return outcome

def remove (path : String) : Act Git Outcome := run "rm" ⟨["rm", "-q", "-r", "--", path], []⟩

def commit (message : String) (stamp : Stamp) (allowEmpty : Bool) : Act Git Outcome :=
  run "commit" ⟨["commit", "-q", "-m", message] ++ (if allowEmpty then ["--allow-empty"] else []),
    stamp.environment⟩

def isConflict (text : String) : Bool := Text.occurs "CONFLICT".toList text.toList

/-- The lines of a text that tell of a conflict. -/
def conflicts (text : String) : List String :=
  ((Text.lines text.toList).filter "CONFLICT".toList.isPrefixOf).map String.ofList

/-- A merge in conflict is undone, so that the next event finds a clean tree. -/
def merge (source message : String) (stamp : Stamp) : Act Git Outcome := do
  let reply ← start ⟨["merge", "--no-ff", "-m", message, source], stamp.environment⟩
  if reply.succeeded then return .success
  if isConflict reply.output || isConflict reply.complaint then
    let undone ← run "merge --abort" ⟨["merge", "--abort"], []⟩
    if let some line := undone.describe then modify (log line)
    return .failure "merge" (Text.joinLines (conflicts reply.output))
  return .failure "merge" reply.detail

def tag (name message : String) (stamp : Stamp) : Act Git Outcome :=
  run "tag" ⟨["tag", "-a", name, "-m", message], stamp.environment⟩

instance : Tool Git where
  switch := switch
  stage := stage
  stageAllExcept := stageAllExcept
  remove := remove
  commit := commit
  merge := merge
  tag := tag
  note n g := { g with notes := g.notes ++ [n] }

end Git

end Backdate
