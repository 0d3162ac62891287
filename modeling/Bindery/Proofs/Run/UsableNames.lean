import Bindery.Proofs.Run.ClientMirror
import Bindery.Proofs.TypeScript.Identifiers
import Bindery.Proofs.TypeScript.StringLiteral

/-!
# Whether the client can be read

The names in the client are made of free text and its imports of file names, and neither is checked.
So it depends on these whether the methods and types are called by identifiers and whether the
imports lead to the files of the commands.
-/

namespace Bindery
set_option autoImplicit false

open Text (inBraces)

namespace TypeScript.Client

open StringLiteral (Denotes special value)

/-- What is behind `from` in the import of a command's types. -/
def specifier (stem : String) : String :=
  "\"" ++ ("./" ++ stem) ++ "\""

theorem statement_typeImport (member : String × Binding.Method) :
    (typeImport member).statement = "import type " ++
      inBraces (member.2.request ++ ", " ++ member.2.response) ++ " from " ++ specifier member.1 ++
      ";" := by
  rw [← String.toList_inj]
  simp [typeImport, Import.statement, Import.clauses, specifier]

theorem denotes_specifier_iff (stem : String) :
    Denotes (specifier stem) (value ("./" ++ stem).toList) ↔ ∀ c ∈ stem.toList, c ∉ special := by
  have lead : ∀ c ∈ "./".toList, c ∉ special := by simp [special]
  unfold specifier
  rw [StringLiteral.denotes_itself_iff, String.toList_append, List.forall_mem_append,
    and_iff_right lead]

end TypeScript.Client

namespace Run

open TypeScript (Client isIdentifier namesMethod namesTypes)
open TypeScript.StringLiteral (Denotes special value)

/-- Whether a command's method and types are called by identifiers depends on its name. -/
theorem Mirrors.names {job : Job} {destination : Destination} {tree : FileTree} {stem : String}
    {member : String × Binding.Method} (h : Mirrors job destination tree stem member) :
    isIdentifier (Client.commandMethod member.2).name = namesMethod member.2.wireName ∧
      ∀ name ∈ (Client.typeImport member).named,
        isIdentifier name = namesTypes member.2.wireName := by
  cases h with
  | page _ _ _ wireName types method =>
    rw [method, types, wireName, List.forall_mem_cons, List.forall_mem_singleton]
    exact ⟨TypeScript.isIdentifier_methodName _, TypeScript.isIdentifier_requestName _,
      TypeScript.isIdentifier_responseName _⟩

/-- **When the client's names can be used.** In the client of a run that ends, the method of a
command is called by an identifier exactly if the words of the command's name make one, and so are
its types; and its import leads to the command's file exactly if the stem holds no character that
ends a string literal or starts an escape in it. -/
theorem client_names_usable_iff (job : Job) (destination : Destination) (tree : FileTree)
    {summary : Summary} (done : (job.run destination tree).result = .ok summary) :
    ∃ (file : Output.GeneratedFile) (client : Client),
      (job.run destination tree).delivery.files.getLast? = some file ∧
      file.content = client.sourceFile.render ∧
      List.Forall₂ (Mirrors job destination tree) summary.commands client.entries ∧
      ∀ member ∈ client.entries,
        isIdentifier (Client.commandMethod member.2).name = namesMethod member.2.wireName ∧
        (∀ name ∈ (Client.typeImport member).named,
          isIdentifier name = namesTypes member.2.wireName) ∧
        ∃ specifier, (Client.typeImport member).statement = "import type " ++
            inBraces (member.2.request ++ ", " ++ member.2.response) ++ " from " ++ specifier ++
            ";" ∧
          (Denotes specifier (value ("./" ++ member.1).toList) ↔
            ∀ c ∈ member.1.toList, c ∉ ['"', '\\', '\n', '\r']) := by
  obtain ⟨bounds, last, files, tally, rfl, listed⟩ := Job.tally_of_run done
  refine ⟨last.client.file job.outputDir, last.client, by rw [listed, List.getLast?_concat],
    last.client.text_eq, tally.mirrors, ?_⟩
  rw [tally.client]
  refine List.forall_mem_map.2 fun bound _ => ?_
  obtain ⟨method, types⟩ := bound.mirrors.names
  exact ⟨method, types, Client.specifier bound.member.1, Client.statement_typeImport _,
    Client.denotes_specifier_iff _⟩

/-- The imports of two commands lead to their files. -/
theorem client_names_usable_iff_takenThird :
    let job := Report.jobOf default
    ∃ (summary : Summary) (client : Client),
      (job.run .preview takenThird).result = .ok summary ∧
      List.Forall₂ (Mirrors job .preview takenThird) ["constructor", "forget-old"] client.entries ∧
      ∀ member ∈ client.entries, ∃ specifier,
        (Client.typeImport member).statement = "import type " ++
          inBraces (member.2.request ++ ", " ++ member.2.response) ++ " from " ++ specifier ++ ";" ∧
        Denotes specifier (value ("./" ++ member.1).toList) := by
  intro job
  obtain ⟨summary, done, commands, -⟩ := exists_summary_takenThird
  obtain ⟨file, client, -, -, mirrors, usable⟩ :=
    client_names_usable_iff job .preview takenThird done
  rw [commands] at mirrors
  refine ⟨summary, client, done, mirrors, fun member mem => ?_⟩
  obtain ⟨-, -, specifier, statement, denotes⟩ := usable member mem
  have stems : ["constructor", "forget-old"] = client.entries.map (·.1) := by
    rw [← List.forall₂_eq_eq_eq, List.forall₂_map_right_iff]
    exact mirrors.imp fun _ _ h => h.stem_eq.symm
  have plain : ∀ stem ∈ ["constructor", "forget-old"], ∀ c ∈ stem.toList,
      c ∉ ['"', '\\', '\n', '\r'] := by simp
  exact ⟨specifier, statement, denotes.2 (plain _ (stems ▸ List.mem_map_of_mem mem))⟩

/-- A page whose file name holds a quote and whose command's name starts with a digit. -/
def quotedPage : FileTree where
  working := []
  entries := [
    (["doc"], .directory),
    (["doc", "lightning-a\"b.7.md"], .file (.text "**2fa**\n\nDESCRIPTION\n")),
    (["doc", "schemas"], .directory),
    (["doc", "schemas", "a\"b.schema.json"], .file (.text "true"))]

theorem entries_quotedPage :
    (Report.jobOf default).entries quotedPage = .ok [⟨⟨"doc/lightning-a\"b.7.md"⟩, "a\"b"⟩] := by
  have leads : quotedPage.locate (Report.jobOf default).project.docsDir = .ok ["doc"] := by
    decide +kernel
  exact Job.entries_of_sorted leads rfl (by decide +kernel) (by decide +kernel)

/-- The import does not lead to the file, and neither method nor types are called by identifiers. -/
theorem quoted_stem_ends_import :
    ∃ (summary : Summary) (file : Output.GeneratedFile) (client : Client),
      ((Report.jobOf default).run .preview quotedPage).result = .ok summary ∧
      ((Report.jobOf default).run .preview quotedPage).delivery.files.getLast? = some file ∧
      file.content = client.sourceFile.render ∧
      ∃ member ∈ client.entries, member.1 = "a\"b" ∧
        (Client.commandMethod member.2).name = "2fa" ∧ isIdentifier "2fa" = false ∧
        (Client.typeImport member).statement =
          "import type { 2faRequest, 2faResponse } from \"./a\"b\";" ∧
        isIdentifier "2faRequest" = false ∧
        ¬Denotes "\"./a\"b\"" (value "./a\"b".toList) := by
  let job := Report.jobOf default
  let method : Binding.Method := .ofDescriptor ⟨"2fa", [], []⟩ ""
  have bound : ((job.bindAll .preview (.start job.project) ⟨quotedPage, []⟩
      [⟨⟨"doc/lightning-a\"b.7.md"⟩, "a\"b"⟩]).result.toOption.map (·.client.entries)) =
        some [("a\"b", method)] := by
    decide +kernel
  obtain ⟨last, ran, entries⟩ := map_toOption_eq_some.1 bound
  obtain ⟨done, file⟩ := Job.last_of_preview entries_quotedPage ran
  refine ⟨last.summary, _, last.client, done, file, last.client.text_eq, ("a\"b", method),
    entries ▸ List.mem_cons_self, rfl, by decide, by decide, by decide, by decide, ?_⟩
  have text : "\"./a\"b\"" = Client.specifier "a\"b" := by decide
  have lead : "./a\"b" = "./" ++ "a\"b" := by decide
  rw [text, lead, Client.denotes_specifier_iff]
  exact fun plain => plain '"' (by decide) (by decide)

end Run

end Bindery
