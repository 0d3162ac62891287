import Bindery.Binding.Analysis
import Bindery.Project.Basic
import Bindery.TypeScript.ClientFile
import Bindery.TypeScript.OfSchema

/-!
# Binding one page after another

A run goes through the pages of a project in order. Each page that can be bound adds a method to the
client and gives files that are to be written before the next page is read; each page that cannot is
left out with an error among the findings. Some faults stop the run: a page or schema that cannot be
read, a command whose file is that of the client, and a schema that has no type.

What is done with a single page is a function of the page and of what was bound before it.
-/

namespace Bindery.Run
set_option autoImplicit false

open Binding (Command Diagnostic)
open Manual (Entry Record)
open Output (GeneratedFile)
open Project (SourceError)
open TypeScript (Client TypeError)

/-- Why a run stops. -/
inductive Stop where
  | source (error : SourceError)
  /-- The result of a command has no type. -/
  | type (stem : String) (error : TypeError)
  /-- The file of a command is that of the client. -/
  | clientOverwritten (stem clientFile : String)
  | unwritable
deriving Repr

/-- The reasons in words, the outermost first. -/
def Stop.messages : Stop → List String
  | .source error => [error.message]
  | .type stem error =>
    ["failed to compile the response type of '" ++ stem ++ "'", error.message]
  | .clientOverwritten stem clientFile =>
    ["command '" ++ stem ++ "' would overwrite the client file '" ++ clientFile ++ "'"]
  | .unwritable => ["failed to write an output file"]

/-- What became of the pages, and what was found in them. -/
structure Summary where
  /-- The stems of the commands that were bound. -/
  commands : List String
  /-- The stems of the pages that were left out. -/
  skipped : List String
  diagnostics : List Diagnostic
deriving Repr, DecidableEq, Inhabited

/-- A project and the directory for its generated files. -/
structure Job where
  project : Project
  outputDir : Path

/-- How far a run is. -/
structure Progress where
  client : Client
  summary : Summary

/-- The start of a run. -/
def Progress.start (project : Project) : Progress :=
  ⟨.new project.settings.output.clientName project.settings.output.clientFile, ⟨[], [], []⟩⟩

/-- A run that has left out a page. -/
def Progress.skip (progress : Progress) (stem : String) (found : List Diagnostic) : Progress :=
  { progress with summary := {
      commands := progress.summary.commands
      skipped := progress.summary.skipped ++ [stem]
      diagnostics := progress.summary.diagnostics ++ found } }

/-- A run that has bound a command. -/
def Progress.bind (progress : Progress) (command : Command) (found : List Diagnostic) : Progress :=
  { client := progress.client.push command.stem command.method
    summary := {
      commands := progress.summary.commands ++ [command.stem]
      skipped := progress.summary.skipped
      diagnostics := progress.summary.diagnostics ++ found } }

/-- The finding that a command's method is taken. -/
def methodTaken (command : Command) (existing : String) : Diagnostic :=
  ⟨.error, "bind", "method '" ++ command.method.identifier ++ "' is already bound by '" ++
    existing ++ "'; command skipped", some command.stem⟩

/-- What a page gives: how far the run is then, and the files to be written. -/
abbrev Step := Progress × List GeneratedFile

namespace Job

/-- The files of a command. -/
def commandFiles (job : Job) (command : Command) (response : String) : List GeneratedFile :=
  TypeScript.CommandFile.file job.outputDir command response ::
    match job.project.debugDir with
    | some dir => [Output.schemaFile dir command.stem command.schema]
    | none => []

/-- Binds a command. -/
def bindCommand (job : Job) (progress : Progress) (command : Command) (found : List Diagnostic) :
    Except Stop Step :=
  let clientFile := job.project.settings.output.clientFile
  if command.stem ++ ".ts" = clientFile then .error (.clientOverwritten command.stem clientFile)
  else match progress.client.conflict? command.method with
    | some existing =>
      .ok (progress.skip command.stem (found ++ [methodTaken command existing]), [])
    | none =>
      match TypeScript.compile command.method.response command.schema with
      | .error error => .error (.type command.stem error)
      | .ok response => .ok (progress.bind command found, job.commandFiles command response)

/-- Binds a page that was read. -/
def bindPage (job : Job) (progress : Progress) (record : Record) : Except Stop Step :=
  let analysis := Binding.analyze job.project.settings.table Manual.synopsisAbove record
  match analysis.command with
  | none => .ok (progress.skip record.stem analysis.diagnostics, [])
  | some command => job.bindCommand progress command analysis.diagnostics

/-- Reads a page and binds it. -/
def step (job : Job) (tree : FileTree) (progress : Progress) (entry : Entry) : Except Stop Step :=
  match entry.read tree job.project.schemasDir job.project.settings.input with
  | .error error => .error (.source error)
  | .ok record => job.bindPage progress record

/-- The pages of a job. -/
def entries (job : Job) (tree : FileTree) : Except SourceError (List Entry) :=
  Manual.enumerate tree job.project.docsDir job.project.settings.input

end Job

end Bindery.Run
