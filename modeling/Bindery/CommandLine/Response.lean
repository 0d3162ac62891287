import Bindery.CommandLine.Request
import Bindery.CommandLine.Usage
import Bindery.Report.Commands
import Bindery.Report.OfRun

/-!
# Responses

What a request gives: an exit code, what is printed, and the tree of files afterwards. A command
line that cannot be understood exits with two, and a request that cannot be met with one.
-/

namespace Bindery.CommandLine
set_option autoImplicit false

open Output (GeneratedFile)
open Project (SourceError)
open Report (Notice)
open Run (Job Stop)

/-- How a command line ends. -/
structure Response where
  exit : Nat
  output : String
  /-- What goes to the error stream. -/
  problems : String
  tree : FileTree

namespace Response

/-- A request that was met by printing a text. -/
def printed (tree : FileTree) (text : String) : Response :=
  ⟨0, text, "", tree⟩

/-- A request that was met with a report. -/
def reported (tree : FileTree) (notices : List Notice) : Response :=
  ⟨0, Report.outputOf notices, Report.problemsOf notices, tree⟩

/-- A request that cannot be met, and why. -/
def failed (tree : FileTree) (messages : List String) : Response :=
  ⟨1, "", "error: " ++ ": ".intercalate messages ++ "\n", tree⟩

/-- A command line that cannot be understood. -/
def misused (tree : FileTree) (error : UsageError) : Response :=
  ⟨2, "", "error: " ++ error.message ++ "\n\nFor more information, try '--help'.\n", tree⟩

end Response

/-- The settings file of a new project. -/
def newSettings (dir : Path) : GeneratedFile :=
  ⟨dir.join ⟨Project.settingsFileName⟩, Project.defaultText, .once, none⟩

/-- Writes a settings file, unless there is one. -/
def initSettings (tree : FileTree) (dir : Path) : Response :=
  let file := newSettings dir
  match file.write tree with
  | (tree, .written) => .printed tree ("Created " ++ file.path.text ++ "\n")
  | (tree, .kept) => .printed tree (file.path.text ++ " already exists, left unchanged\n")
  | (tree, .failed) => .failed tree ["Failed to write " ++ file.path.text]

/-- Goes on with the project of a settings file, if there is one. -/
def withProject (tree : FileTree) (settings : Path) (next : Project → Response) : Response :=
  match Project.ofFile tree settings with
  | .ok project => next project
  | .error error => .failed tree [error.message]

/-- Writes or shows the files of a project. -/
def generate (tree : FileTree) (output : Option Path) (dryRun : Bool) (project : Project) :
    Response :=
  let job : Job := ⟨project, output.getD project.outputDir⟩
  if dryRun then
    match Report.previewOf job tree with
    | .ok preview => .reported tree preview.notices
    | .error stop => .failed tree stop.messages
  else
    match Report.generationOf job tree with
    | (tree, .ok generation) => .reported tree generation.notices
    | (tree, .error stop) => .failed tree ("Failed to generate bindings" :: stop.messages)

/-- Checks a project. The exit code tells whether every page could be bound. -/
def check (tree : FileTree) (json : Bool) (project : Project) : Response :=
  match Report.checkOf project tree with
  | .error stop => .failed tree stop.messages
  | .ok check =>
    let response : Response := if json then
        .printed tree (Binding.diagnosticsText check.diagnostics ++ "\n")
      else .reported tree check.notices
    { response with exit := if check.isValid then 0 else 1 }

/-- Lists the commands of a project. -/
def list (tree : FileTree) (project : Project) : Response :=
  match Run.list project tree with
  | .ok listing => .reported tree (Report.listingNotices listing)
  | .error error => .failed tree [error.message]

/-- Meets a request. -/
def respond (tree : FileTree) : Request → Response
  | .init dir => initSettings tree dir
  | .generate settings output dryRun => withProject tree settings (generate tree output dryRun)
  | .check settings json => withProject tree settings (check tree json)
  | .list settings => withProject tree settings (list tree)
  | .completions shell => .printed tree (completions shell)
  | .help => .printed tree helpText
  | .version => .printed tree versionText

/-- Runs a command line in a tree of files. -/
def perform (tree : FileTree) (arguments : List String) : Response :=
  match parse arguments with
  | .ok request => respond tree request
  | .error error => .misused tree error

end Bindery.CommandLine
