/-!
# The grammar of the command line

A command line names a verb, switches and operands. A switch that takes a value takes the rest of
its argument or the next argument. `-v` may be given more than once and in front of the verb; every
other switch may be given once, behind the verb that knows it. Behind `--` everything is an operand.
-/

namespace Bindery.CommandLine
set_option autoImplicit false

/-- What can be asked for. -/
inductive Verb where
  | init
  | generate
  | check
  | list
  | completions
  | help
deriving Repr, DecidableEq, Inhabited

/-- The verb as it is written. -/
def Verb.name : Verb → String
  | .init => "init"
  | .generate => "generate"
  | .check => "check"
  | .list => "list"
  | .completions => "completions"
  | .help => "help"

/-- All verbs. -/
def Verb.all : List Verb :=
  [.init, .generate, .check, .list, .completions, .help]

/-- The verb with a name. -/
def Verb.ofName? (name : String) : Option Verb :=
  Verb.all.find? (·.name = name)

/-- Something that is switched on or given a value. -/
inductive Switch where
  | verbose
  | help
  | version
  | settings
  | output
  | dryRun
  | json
deriving Repr, DecidableEq, Inhabited

/-- The long form of a switch, behind two dashes. -/
def Switch.long : Switch → String
  | .verbose => "verbose"
  | .help => "help"
  | .version => "version"
  | .settings => "config"
  | .output => "output"
  | .dryRun => "dry-run"
  | .json => "json"

/-- The short form of a switch, behind one dash. -/
def Switch.short? : Switch → Option Char
  | .verbose => some 'v'
  | .help => some 'h'
  | .version => some 'V'
  | .settings => some 'c'
  | .output => some 'o'
  | .dryRun | .json => none

/-- Whether a switch takes a value. -/
def Switch.takesValue : Switch → Bool
  | .settings | .output => true
  | _ => false

/-- Whether a switch may be given more than once. -/
def Switch.repeats : Switch → Bool
  | .verbose => true
  | _ => false

/-- The switches that are known behind a verb, or in front of it. -/
def switchesOf : Option Verb → List Switch
  | none => [.verbose, .help, .version]
  | some .generate => [.verbose, .help, .settings, .output, .dryRun]
  | some .check => [.verbose, .help, .settings, .json]
  | some .list => [.verbose, .help, .settings]
  | some _ => [.verbose, .help]

/-- A shell that can complete command lines. -/
inductive Shell where
  | bash
  | elvish
  | fish
  | powershell
  | zsh
deriving Repr, DecidableEq, Inhabited

/-- The shell's name. -/
def Shell.name : Shell → String
  | .bash => "bash"
  | .elvish => "elvish"
  | .fish => "fish"
  | .powershell => "powershell"
  | .zsh => "zsh"

/-- The shell with a name. -/
def Shell.ofName? (name : String) : Option Shell :=
  [Shell.bash, .elvish, .fish, .powershell, .zsh].find? (·.name = name)

/-- What is wrong with a command line. -/
inductive UsageError where
  | missingVerb
  | unknownVerb (name : String)
  | unexpected (argument : String)
  | missingValue (switch : Switch)
  | unneededValue (switch : Switch)
  | repeated (switch : Switch)
  | emptyOperand
  | missingShell
  | unknownShell (name : String)
deriving Repr, DecidableEq, Inhabited

/-- The error in words. -/
def UsageError.message : UsageError → String
  | .missingVerb => "a command is required"
  | .unknownVerb name => "unrecognized command '" ++ name ++ "'"
  | .unexpected argument => "unexpected argument '" ++ argument ++ "'"
  | .missingValue switch => "'--" ++ switch.long ++ "' requires a value"
  | .unneededValue switch => "'--" ++ switch.long ++ "' takes no value"
  | .repeated switch => "'--" ++ switch.long ++ "' cannot be used more than once"
  | .emptyOperand => "a directory must have a name"
  | .missingShell => "a shell is required"
  | .unknownShell name => "unknown shell '" ++ name ++ "'"

end Bindery.CommandLine
