import Backdate.Anchor

/-!
# The command line

A command has a plan and options, in any order. An option is given at most once,
as `--name value` or `--name=value`; a value that looks like an option has to be
given the second way. Behind `--` nothing is an option. What does not fit is
refused as a whole (`Request.parse`).
-/

namespace Backdate

/-- What the program can be asked to do. -/
inductive Command where
  | replay (plan : String) (repository : Option String) (dryRun : Bool)
  | check (plan : String)
  | when (plan : String) (time : EventTime)
  deriving DecidableEq, Repr

inductive Request where
  | command (c : Command)
  | version
  | help
  deriving DecidableEq, Repr

namespace Arguments

/-- One argument by its looks. -/
inductive Shape where
  | word
  /-- The mark `--`. -/
  | stop
  | short (letter : Char)
  | long (name : String) (value : Option String)
  deriving DecidableEq, Repr

def shape (arg : String) : Shape :=
  match arg.toList with
  | ['-', '-'] => .stop
  | '-' :: '-' :: cs =>
    match cs.dropWhile (· != '=') with
    | '=' :: value => .long (String.ofList (cs.takeWhile (· != '='))) (some (String.ofList value))
    | _ => .long (String.ofList cs) none
  | '-' :: c :: _ => .short c
  | _ => .word

/-- The number that a text spells, at most `limit`. A sign may stand before the digits. -/
def number? (limit : Nat) (s : String) : Option Nat :=
  let (minus, ds) := match s.toList with
    | '-' :: ds => (true, ds)
    | '+' :: ds => (false, ds)
    | ds => (false, ds)
  let n := Nat.ofDigitChars 10 ds 0
  if !ds.isEmpty && ds.all Char.isDigit && n ≤ limit && (!minus || n == 0) then some n else none

/-- The options of a command, and which values they take. -/
structure Options where
  flags : List String
  valued : List (String × (String → Bool))

/-- What was given. -/
structure Given where
  plan : Option String := none
  flags : List String := []
  values : List (String × String) := []

def Given.addPlan (g : Given) (plan : String) : Option Given :=
  if g.plan.isSome || plan.isEmpty then none else some { g with plan := some plan }

def Given.addFlag (g : Given) (name : String) : Option Given :=
  if g.flags.contains name then none else some { g with flags := name :: g.flags }

def Given.addValue (g : Given) (name value : String) (accepts : String → Bool) : Option Given :=
  if (g.values.lookup name).isSome || !accepts value then none
  else some { g with values := (name, value) :: g.values }

/-- The arguments of a command; the inner `none` is a call for help. Behind the mark `--` all
arguments are words. -/
def scan (o : Options) : (stopped : Bool) → Given → List String → Option (Option Given)
  | _, g, [] => some (some g)
  | true, g, arg :: args => do scan o true (← g.addPlan arg) args
  | false, g, arg :: args =>
    match shape arg with
    | .word => do scan o false (← g.addPlan arg) args
    | .stop => scan o true g args
    | .short letter => if letter = 'h' then some none else none
    | .long name value =>
      if name = "help" then if value.isNone then some none else none
      else if o.flags.contains name then do
        if value.isSome then none else scan o false (← g.addFlag name) args
      else
        match o.valued.lookup name, value, args with
        | none, _, _ => none
        | some accepts, some value, args => do
          scan o false (← g.addValue name value accepts) args
        | some accepts, none, value :: args =>
          if shape value = .word then do
            scan o false (← g.addValue name value accepts) args
          else none
        | some _, none, [] => none

def maxWord32 : Nat := 4294967295

def maxWord8 : Nat := 255

/-- The value of an option that holds a number, or what stands for it. -/
def Given.number (g : Given) (name : String) (limit default : Nat) : Nat :=
  ((g.values.lookup name).bind (number? limit)).getD default

def command? (name : String) (args : List String) : Option Request :=
  let isNumber (limit : Nat) (s : String) : Bool := (number? limit s).isSome
  let request (g : Option Given) (make : String → Given → Option Command) : Option Request :=
    match g with
    | none => some .help
    | some g => do return .command (← make (← g.plan) g)
  match name with
  | "replay" => do
    let g ← scan ⟨["dry-run"], [("repo", fun s => !s.isEmpty)]⟩ false {} args
    request g fun plan g =>
      some (.replay plan (g.values.lookup "repo") (g.flags.contains "dry-run"))
  | "check" => do
    let g ← scan ⟨[], []⟩ false {} args
    request g fun plan _ => some (.check plan)
  | "when" => do
    let valued := [("day", isNumber maxWord32), ("hour", isNumber maxWord8),
      ("minute", isNumber maxWord8)]
    let g ← scan ⟨[], valued⟩ false {} args
    request g fun plan g => do
      let day ← (g.values.lookup "day").bind (number? maxWord32)
      let time : EventTime := ⟨UInt32.ofNat day, UInt8.ofNat (g.number "hour" maxWord8 9),
        UInt8.ofNat (g.number "minute" maxWord8 0)⟩
      return .when plan time
  | "help" =>
    match args with
    | [] => some .help
    | [name] => if ["replay", "check", "when", "help"].contains name then some .help else none
    | _ => none
  | _ => none

end Arguments

open Arguments in
/-- What the arguments of the program ask for. -/
def Request.parse : List String → Option Request
  | [] => none
  | arg :: args =>
    match shape arg with
    | .word => command? arg args
    | .short letter => if letter = 'h' then some .help else if letter = 'V' then some .version else none
    | .long name none =>
      if name = "help" then some .help else if name = "version" then some .version else none
    | _ => none

end Backdate
