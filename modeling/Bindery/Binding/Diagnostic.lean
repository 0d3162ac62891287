import Bindery.Json.Writer

/-!
# Diagnostics

Findings about single commands that do not stop a run.
-/

namespace Bindery.Binding
set_option autoImplicit false

/-- What a finding means for its command. -/
inductive Severity where
  /-- The command is left out. -/
  | error
  /-- The command is bound, perhaps not fully. -/
  | warning
  | info
deriving Repr, DecidableEq, Inhabited

/-- The severity in words. -/
def Severity.name : Severity → String
  | .error => "error"
  | .warning => "warning"
  | .info => "info"

/-- The severity with a name. -/
def Severity.ofName? (name : String) : Option Severity :=
  [Severity.error, .warning, .info].find? (·.name = name)

/-- A finding. -/
structure Diagnostic where
  severity : Severity
  /-- The step of the work that found it. -/
  phase : String
  message : String
  /-- The command, perhaps with a place in its schema. -/
  location : Option String
deriving Repr, DecidableEq, Inhabited

namespace Diagnostic

/-- Whether the finding leaves its command out. -/
def isError (d : Diagnostic) : Bool :=
  d.severity = .error

/-- Whether the finding is a warning. -/
def isWarning (d : Diagnostic) : Bool :=
  d.severity = .warning

/-- The finding on one line. -/
def text (d : Diagnostic) : String :=
  d.severity.name ++ ": " ++ d.message ++
    (match d.location with
      | some location => " (at " ++ location ++ ")"
      | none => "")

/-- The finding as a JSON object. -/
def toJson (d : Diagnostic) : Json :=
  .object [
    ("severity", .string d.severity.name),
    ("phase", .string d.phase),
    ("message", .string d.message),
    ("location", (d.location.map .string).getD .null)]

end Diagnostic

/-- Findings as JSON text. -/
def diagnosticsText (ds : List Diagnostic) : String :=
  (Json.array (ds.map Diagnostic.toJson)).pretty

/-- Whether some finding leaves its command out. -/
def hasErrors (ds : List Diagnostic) : Bool :=
  ds.any Diagnostic.isError

/-- The number of warnings. -/
def warningCount (ds : List Diagnostic) : Nat :=
  ds.countP Diagnostic.isWarning

end Bindery.Binding
