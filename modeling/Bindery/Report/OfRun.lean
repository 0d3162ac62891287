import Bindery.Report.Findings
import Bindery.Run.Delivery

/-!
# From runs to reports

Checking a project is a preview of which only the findings are kept.
-/

namespace Bindery.Report
set_option autoImplicit false

open Run (Job Outcome Stop Summary)

/-- What a run that ended gives, made into a report. -/
def ofOutcome {α : Type} (report : Run.Delivery → Summary → α) (outcome : Outcome Summary) :
    Except Stop α :=
  outcome.result.map (report outcome.delivery)

/-- Previews a job. -/
def previewOf (job : Job) (tree : FileTree) : Except Stop Preview :=
  ofOutcome (fun delivery summary => {
    files := delivery.files.map fun file => (file.path, file.content)
    skipped := summary.skipped
    diagnostics := summary.diagnostics }) (job.preview tree)

/-- The job of a project whose files go where its settings say. -/
def jobOf (project : Project) : Job :=
  ⟨project, project.outputDir⟩

/-- Checks a project. -/
def checkOf (project : Project) (tree : FileTree) : Except Stop Check :=
  ofOutcome (fun _ summary => {
    settingsPath := project.path
    commands := summary.commands.length
    skipped := summary.skipped
    diagnostics := summary.diagnostics }) ((jobOf project).preview tree)

/-- Generates the files of a job: the tree then, and the report. -/
def generationOf (job : Job) (tree : FileTree) : FileTree × Except Stop Generation :=
  let outcome := job.generate tree
  (outcome.delivery.tree, ofOutcome (fun delivery summary => {
    outputDir := job.outputDir
    written := delivery.files.map (·.path)
    commands := summary.commands.length
    skipped := summary.skipped
    diagnostics := summary.diagnostics }) outcome)

end Bindery.Report
