import Bindery.Proofs.Json.Quoting
import Bindery.Proofs.Manual.Pages
import Bindery.Proofs.Run.Course
import Bindery.Proofs.TypeScript.Names
import Bindery.Report.OfRun

/-!
# The client of a run

The file of the client imports the types of each command that was bound and has a method for it, in
the order in which the commands were bound, and no two of the names it uses clash.
-/

namespace Bindery
set_option autoImplicit false

namespace TypeScript.Client

/-- The imports of the types of the commands. -/
def typeImports (client : Client) : List Import :=
  client.entries.map typeImport

/-- The methods of the commands. -/
def commandMethods (client : Client) : List Method :=
  client.entries.map fun e => commandMethod e.2

/-- The file of the client: the connection library and the types are imported, and the class has a
constructor, the method that sends a call and the methods of the commands. -/
def sourceFile (client : Client) : SourceFile where
  header := some generatedHeader
  importGroups := [netImport] :: if client.typeImports.isEmpty then [] else [client.typeImports]
  body := [Declaration.toFragments (.classDefinition
    { name := client.className
      isDefault := true
      constructor := some [⟨"_socketPath", "string", none, true⟩]
      methods := callMethod :: client.commandMethods })]

theorem text_eq (client : Client) : client.text = client.sourceFile.render := by
  unfold text SourceFile.addImportGroup sourceFile typeImports
  split
  · rfl
  · rfl

end TypeScript.Client

namespace Run

open Binding (Command)
open Manual (Entry Page Record)
open TypeScript (Client methodName requestName responseName)

/-- What the client has for a command: it imports the command's types from the command's file, and
its method sends the name of the page's synopsis, written as a JSON string. -/
inductive Mirrors (job : Job) (destination : Destination) (tree : FileTree) :
    String → String × Binding.Method → Prop
  | page {entry : Entry} {record : Record} {synopsis literal : String} {outcome : Synopsis.Outcome}
      {member : String × Binding.Method}
      (reads : job.Reads destination tree entry record)
      (above : (Page.ofText record.text).synopsis? Manual.synopsisAbove = some synopsis)
      (parsed : Synopsis.parse synopsis = .ok outcome)
      (wireName : member.2.wireName = outcome.descriptor.name)
      (types : Client.typeImport member = ⟨"./" ++ entry.stem, none, none,
        [requestName outcome.descriptor.name, responseName outcome.descriptor.name], true⟩)
      (method : (Client.commandMethod member.2).name = methodName outcome.descriptor.name)
      (wire : Json.parse? literal = some (.string outcome.descriptor.name))
      (sends : (Client.commandMethod member.2).body = ["return this._call<" ++
        responseName outcome.descriptor.name ++ ">(" ++ literal ++ ", payload);"]) :
      Mirrors job destination tree entry.stem member

variable {job : Job} {destination : Destination} {tree : FileTree}

/-- A command's place in the client has the command's stem. -/
theorem Mirrors.stem_eq {stem : String} {member : String × Binding.Method}
    (h : Mirrors job destination tree stem member) : member.1 = stem := by
  cases h with
  | page _ _ _ _ types =>
    have source := congrArg TypeScript.Import.source types
    exact (String.append_right_inj _).1 source

namespace Bound

/-- A command's names are made of the name in its synopsis. -/
theorem method_eq (bound : Bound job destination tree) :
    ∃ synopsis outcome doc, (Page.ofText bound.record.text).synopsis? Manual.synopsisAbove =
        some synopsis ∧
      Synopsis.parse synopsis = .ok outcome ∧
      bound.command.method = .ofDescriptor outcome.descriptor doc := by
  obtain ⟨synopsis, outcome, above, parsed, same⟩ := Binding.command_of_analyze bound.analyzed
  exact ⟨synopsis, outcome, _, above, parsed, congrArg Command.method same⟩

theorem mirrors (bound : Bound job destination tree) :
    Mirrors job destination tree bound.command.stem bound.member := by
  obtain ⟨synopsis, outcome, doc, above, parsed, method⟩ := bound.method_eq
  have wire := Json.parse?_quote outcome.descriptor.name
  rw [bound.stem_eq]
  refine .page bound.read above parsed ?_ ?_ ?_ wire ?_
  · unfold member
    rw [method]
    rfl
  · unfold Client.typeImport member
    rw [bound.stem_eq, method]
    rfl
  · unfold member
    rw [method]
    rfl
  · unfold member
    rw [method]
    rfl

end Bound

section

variable {bounds : List (Bound job destination tree)} {progress : Progress}
  {files : List Output.GeneratedFile}

theorem Tally.mirrors (h : Tally bounds progress files) :
    List.Forall₂ (Mirrors job destination tree) progress.summary.commands
      progress.client.entries := by
  rw [h.commands, h.client, List.forall₂_map_left_iff, List.forall₂_map_right_iff,
    List.forall₂_same]
  exact fun bound _ => bound.mirrors

end

/-- Two commands, one of them with a reserved name, and a third whose method is taken. -/
def takenThird : FileTree :=
  let page (text : String) : FileEntry := .file (.text text)
  { working := []
    entries := [
      (["doc"], .directory),
      (["doc", "lightning-constructor.7.md"], page "**constructor** *id*\n\nDESCRIPTION\n"),
      (["doc", "lightning-forget-old.7.md"], page "**forget.channel**\n\nDESCRIPTION\n"),
      (["doc", "lightning-forget.7.md"], page "**forget_channel**\n\nDESCRIPTION\n"),
      (["doc", "schemas"], .directory),
      (["doc", "schemas", "constructor.schema.json"], page "true"),
      (["doc", "schemas", "forget-old.schema.json"], page "true"),
      (["doc", "schemas", "forget.schema.json"], page "true")] }

theorem entries_takenThird : (Report.jobOf default).entries takenThird =
    .ok (["constructor", "forget-old", "forget"].map fun stem =>
      ⟨⟨"doc/lightning-" ++ stem ++ ".7.md"⟩, stem⟩) := by
  have leads : takenThird.locate (Report.jobOf default).project.docsDir = .ok ["doc"] := by
    decide +kernel
  exact Job.entries_of_sorted leads rfl (by decide +kernel) (by decide +kernel)

theorem exists_summary_takenThird :
    ∃ summary, ((Report.jobOf default).run .preview takenThird).result = .ok summary ∧
      summary.commands = ["constructor", "forget-old"] ∧ summary.skipped = ["forget"] := by
  have ran : (((Report.jobOf default).run .preview takenThird).result.toOption.map
      fun summary => (summary.commands, summary.skipped)) =
        some (["constructor", "forget-old"], ["forget"]) := by
    unfold Job.run
    rw [entries_takenThird]
    decide +kernel
  obtain ⟨summary, done, same⟩ := map_toOption_eq_some.1 ran
  exact ⟨summary, done, Prod.mk.inj same⟩

end Run

end Bindery
