import Bindery.Binding.Diagnostic
import Bindery.Output.GeneratedFile
import Bindery.Report.Notice

/-!
# Reports on runs

What is said after a project was checked, generated or previewed: its findings, and what became of
its commands.
-/

namespace Bindery.Report
set_option autoImplicit false

open Binding (Diagnostic)
open Output (GeneratedFile)

/-- A finding. Only errors and warnings are problems. -/
def finding (d : Diagnostic) : Notice :=
  if d.isError || d.isWarning then .problem d.text else .plain d.text

/-- Findings, with a blank line below them. -/
def findings (ds : List Diagnostic) : List Notice :=
  ds.map finding ++ if ds.isEmpty then [] else [.blank]

/-- What checking a project gives. -/
structure Check where
  settingsPath : Path
  /-- The number of commands. -/
  commands : Nat
  skipped : List String
  diagnostics : List Diagnostic
deriving Repr, DecidableEq, Inhabited

/-- Whether every page could be bound. -/
def Check.isValid (check : Check) : Bool :=
  !Binding.hasErrors check.diagnostics

/-- The report on a check. -/
def Check.notices (check : Check) : List Notice :=
  let bound := check.settingsPath.text ++ " binds " ++ count check.commands "command"
  findings check.diagnostics ++
    [if check.isValid then .plain ("✓ " ++ bound)
      else .problem ("✗ " ++ bound ++ ", " ++ toString check.skipped.length ++ " skipped")]

/-- What generating the files of a project gives. -/
structure Generation where
  outputDir : Path
  written : List Path
  /-- The number of commands. -/
  commands : Nat
  skipped : List String
  diagnostics : List Diagnostic
deriving Repr, DecidableEq, Inhabited

/-- A path as seen from a directory, or as it is if it is not inside. -/
def shownFrom (dir path : Path) : String :=
  ((path.relativeTo? dir).getD path).text

/-- The report on a generation. -/
def Generation.notices (g : Generation) : List Notice :=
  findings g.diagnostics ++
    [.plain ("Bound " ++ count g.commands "command" ++ " into " ++ g.outputDir.text)] ++
    listed "Written" (g.written.map fun path => .added (shownFrom g.outputDir path)) ++
    listed "Skipped" (g.skipped.map .removed)

/-- What previewing the files of a project gives. -/
structure Preview where
  files : List (Path × String)
  skipped : List String
  diagnostics : List Diagnostic
deriving Repr, DecidableEq, Inhabited

/-- The files of a preview and its findings. -/
def Preview.details (p : Preview) : List Notice :=
  p.files.flatMap (fun file => [.divider file.1.text, .plain file.2]) ++ p.diagnostics.map finding

/-- The end of the report on a preview. -/
def Preview.summary (p : Preview) : List Notice :=
  .plain (count p.files.length "file" ++ " would be generated") ::
    if p.skipped.isEmpty then []
    else [.plain (count p.skipped.length "command" ++ " skipped: " ++ ", ".intercalate p.skipped)]

/-- The report on a preview. -/
def Preview.notices (p : Preview) : List Notice :=
  p.details ++ .divider "Summary" :: p.summary

end Bindery.Report
