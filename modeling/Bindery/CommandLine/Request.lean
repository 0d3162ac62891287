import Bindery.CommandLine.Grammar
import Bindery.Path

/-!
# Requests

What a command line asks for. Its arguments are read from left to right, and the first of them that
asks for help or for the version, or is wrong, decides.
-/

namespace Bindery.CommandLine
set_option autoImplicit false

/-- What is asked for. -/
inductive Request where
  /-- A settings file in a directory. -/
  | init (dir : Path)
  | generate (settings : Path) (output : Option Path) (dryRun : Bool)
  | check (settings : Path) (json : Bool)
  | list (settings : Path)
  | completions (shell : Shell)
  | help
  | version
deriving Repr, DecidableEq, Inhabited

/-- An argument that decides. -/
inductive Verdict where
  | request (request : Request)
  | error (error : UsageError)
deriving Repr, DecidableEq, Inhabited

/-- What the arguments so far have given. -/
structure Given where
  verb : Option Verb
  /-- The switch whose value is the next argument. -/
  awaiting : Option Switch
  /-- Whether all further arguments are operands. -/
  operandsOnly : Bool
  /-- The switches with their values, empty for those that take none. -/
  switches : List (Switch × String)
  operands : List String
deriving Repr, DecidableEq, Inhabited

namespace Given

/-- Nothing. -/
def start : Given :=
  ⟨none, none, false, [], []⟩

/-- The value of a switch, if it was given. -/
def valueOf (given : Given) (switch : Switch) : Option String :=
  given.switches.lookup switch

/-- Takes a switch and its value. -/
def set (given : Given) (switch : Switch) (value : String) : Except Verdict Given :=
  if switch = .help then .error (.request .help)
  else if switch = .version then .error (.request .version)
  else if (given.valueOf switch).isSome && !switch.repeats then .error (.error (.repeated switch))
  else if switch.takesValue && value = "" then .error (.error (.missingValue switch))
  else .ok { given with switches := given.switches ++ [(switch, value)], awaiting := none }

/-- Takes an operand. The first is the verb, and behind `help` nothing is a switch. -/
def addOperand (given : Given) (operand : String) : Except Verdict Given :=
  match given.verb with
  | none =>
    if given.operandsOnly then .error (.error (.unexpected operand))
    else match Verb.ofName? operand with
      | some verb => .ok { given with verb := some verb, operandsOnly := verb = .help }
      | none => .error (.error (.unknownVerb operand))
  | some .init =>
    if given.operands ≠ [] then .error (.error (.unexpected operand))
    else if operand = "" then .error (.error .emptyOperand)
    else .ok { given with operands := [operand] }
  | some .completions =>
    if given.operands ≠ [] then .error (.error (.unexpected operand))
    else if (Shell.ofName? operand).isNone then .error (.error (.unknownShell operand))
    else .ok { given with operands := [operand] }
  | some .help =>
    if given.operands ≠ [] || (Verb.ofName? operand).isNone then
      .error (.error (.unknownVerb operand))
    else .ok { given with operands := [operand] }
  | some _ => .error (.error (.unexpected operand))

/-- Takes what stands behind two dashes: a switch, perhaps with its value. -/
def addLong (given : Given) (argument : String) (body : List Char) : Except Verdict Given :=
  let name := String.ofList (body.takeWhile (· != '='))
  let value := match body.dropWhile (· != '=') with
    | _ :: value => some (String.ofList value)
    | [] => none
  match (switchesOf given.verb).find? (·.long = name), value with
  | none, _ => .error (.error (.unexpected argument))
  | some switch, some value =>
    if switch.takesValue then given.set switch value
    else .error (.error (.unneededValue switch))
  | some switch, none =>
    if switch.takesValue then .ok { given with awaiting := some switch }
    else given.set switch ""

/-- The value behind a short switch in one argument, without an equals sign in front of it. -/
def attached : List Char → String
  | '=' :: cs => String.ofList cs
  | cs => String.ofList cs

/-- Takes what stands behind one dash: switches, the last perhaps with its value. -/
def addShort (given : Given) (argument : String) : List Char → Except Verdict Given
  | [] => .ok given
  | c :: cs =>
    match (switchesOf given.verb).find? (·.short? = some c) with
    | none => .error (.error (.unexpected argument))
    | some switch =>
      if switch.takesValue then
        if cs = [] then .ok { given with awaiting := some switch }
        else given.set switch (attached cs)
      else match given.set switch "" with
        | .error verdict => .error verdict
        | .ok given => addShort given argument cs

/-- Takes an argument. -/
def add (given : Given) (argument : String) : Except Verdict Given :=
  if given.operandsOnly then given.addOperand argument
  else match argument.toList, given.awaiting with
    | '-' :: _ :: _, some switch => .error (.error (.missingValue switch))
    | ['-', '-'], none => .ok { given with operandsOnly := true }
    | '-' :: '-' :: body, none => given.addLong argument body
    | '-' :: c :: cs, none => given.addShort argument (c :: cs)
    | _, some switch => given.set switch argument
    | _, none => given.addOperand argument

/-- The settings file that was named, or the one in the working directory. -/
def settingsPath (given : Given) : Path :=
  ⟨(given.valueOf .settings).getD "docbind.toml"⟩

/-- What the arguments ask for together. -/
def request (given : Given) : Except UsageError Request :=
  match given.awaiting, given.verb with
  | some switch, _ => .error (.missingValue switch)
  | none, none => .error .missingVerb
  | none, some .init => .ok (.init ⟨given.operands.head?.getD "."⟩)
  | none, some .generate =>
    .ok (.generate given.settingsPath ((given.valueOf .output).map Path.mk)
      (given.valueOf .dryRun).isSome)
  | none, some .check => .ok (.check given.settingsPath (given.valueOf .json).isSome)
  | none, some .list => .ok (.list given.settingsPath)
  | none, some .completions =>
    match given.operands.head?.bind Shell.ofName? with
    | some shell => .ok (.completions shell)
    | none => .error .missingShell
  | none, some .help => .ok .help

end Given

/-- What a command line asks for. -/
def parse (arguments : List String) : Except UsageError Request :=
  match arguments.foldlM Given.add Given.start with
  | .ok given => given.request
  | .error (.request request) => .ok request
  | .error (.error error) => .error error

end Bindery.CommandLine
