import Bindery.Proofs.Run.Listing
import Bindery.Report.Commands
import Mathlib.Data.List.TakeWhile

/-!
# Commands under other names

Both the findings about a page and the report on a listing say when the synopsis names another command
than the page does. The findings compare the name. The report compares what stands in front of the
first space of the signature, which is less than the name if the name has a space.
-/

namespace Bindery.Binding
set_option autoImplicit false

open Manual (Locator Record)

/-- The finding that the page of a stem describes a command of another name. -/
def otherName (stem name : String) : Diagnostic :=
  ⟨.info, "synopsis", "synopsis names the command '" ++ name ++ "'", some stem⟩

theorem otherName_mem_synopsisDiagnostics {stem : String} {outcome : Synopsis.Outcome} :
    otherName stem outcome.descriptor.name ∈ synopsisDiagnostics stem outcome ↔
      outcome.descriptor.name ≠ stem := by
  unfold synopsisDiagnostics
  rw [List.mem_append]
  split
  · next same => simp [otherName, same]
  · next other => simp [otherName, other]

/-- What is found about a schema is found in another phase. -/
theorem otherName_not_mem_schemaDiagnostics (stem name : String) (report : Schema.Report) :
    otherName stem name ∉ schemaDiagnostics stem report := by
  simp [schemaDiagnostics, otherName]

/-- Findings name the command exactly if it has another name than its page. -/
theorem otherName_mem_iff {table : Schema.TagTable} {locator : Locator} {record : Record}
    {command : Command} (some : (analyze table locator record).command = some command) :
    otherName record.stem command.descriptor.name ∈ (analyze table locator record).diagnostics ↔
      command.descriptor.name ≠ record.stem := by
  obtain ⟨outcome, described, found⟩ := diagnostics_of_command some
  rw [found, described, List.mem_append, otherName_mem_synopsisDiagnostics, or_iff_left]
  exact otherName_not_mem_schemaDiagnostics _ _ _

end Bindery.Binding

namespace Bindery.Report
set_option autoImplicit false

open Binding (otherName otherName_mem_iff)
open Run (Job Listing)
open Synopsis (Descriptor)

/-! ## First words -/

theorem firstWord_eq_self {text : String} : firstWord text = text ↔ ' ' ∉ text.toList := by
  unfold firstWord
  rw [← String.toList_inj, String.toList_ofList, List.takeWhile_eq_self_iff]
  constructor
  · intro plain space
    exact absurd (plain _ space) (by decide)
  · intro plain c mem
    exact bne_iff_ne.2 fun same => plain (same ▸ mem)

theorem firstWord_append_space (text rest : String) :
    firstWord (text ++ " " ++ rest) = firstWord text := by
  have cut : (text ++ " " ++ rest).toList.takeWhile (· != ' ') = text.toList.takeWhile (· != ' ') := by
    rw [String.toList_append, String.toList_append, List.append_assoc, List.takeWhile_append]
    split
    · next whole =>
      have all : text.toList.takeWhile (· != ' ') = text.toList :=
        (List.takeWhile_prefix _).eq_of_length whole
      rw [all]
      exact List.append_nil _
    · rfl
  rw [firstWord, cut, firstWord]

/-- A signature starts with the first word of the name. -/
theorem firstWord_signature (descriptor : Descriptor) :
    firstWord descriptor.signature = firstWord descriptor.name := by
  unfold Descriptor.signature
  cases descriptor.parameters.map Descriptor.parameterText with
  | nil => rw [String.intercalate_singleton]
  | cons first rest =>
    rw [String.intercalate_cons_of_ne_nil (List.cons_ne_nil _ _), firstWord_append_space]

/-! ## Items -/

/-- The item of a command that is shown with its stem. -/
def marked (entry : String × String) : Notice :=
  .item (entry.2 ++ "  (documented as " ++ entry.1 ++ ")")

theorem commandItem_eq_marked {entry : String × String} :
    commandItem entry = marked entry ↔ firstWord entry.2 ≠ entry.1 := by
  unfold commandItem marked
  split
  · next same => simp [same, ← String.toList_inj]
  · next other => simp [other]

theorem commandItem_mem {listing : Listing} {entry : String × String}
    (mem : entry ∈ listing.entries) : commandItem entry ∈ listingNotices listing := by
  have some : listing.entries.isEmpty = false := by
    simpa using List.ne_nil_of_mem mem
  unfold listingNotices
  rw [some]
  exact List.mem_append_left _ (List.mem_cons_of_mem _ (List.mem_map_of_mem mem))

/-! ## Listings -/

/-- **A listing marks commands by first words.** The report on a listing has an item for each page
with a command. It is marked exactly if the first word of the command's name is not the stem of the
page, while the findings about the page name the command exactly if its name is not the stem. So the
two agree unless the name has a space and the stem is the name or its first word. -/
theorem listing_marks_iff (job : Job) (tree : FileTree) (listing : Listing)
    (listed : Run.list job.project tree = .ok listing) :
    ∃ entries records, job.entries tree = .ok entries ∧
      entries.mapM (job.readIn tree) = .ok records ∧
      listing.entries = records.filterMap job.shown ∧
      ∀ record ∈ records, ∀ command, (job.analysis record).command = some command →
        let name := command.descriptor.name
        let entry := (record.stem, command.descriptor.signature)
        let found := otherName record.stem name ∈ (job.analysis record).diagnostics
        entry ∈ listing.entries ∧ commandItem entry ∈ listingNotices listing ∧
          (found ↔ name ≠ record.stem) ∧
          (commandItem entry = marked entry ↔ firstWord name ≠ record.stem) ∧
          ((commandItem entry = marked entry ↔ found) ↔
            (' ' ∈ name.toList → record.stem ≠ name ∧ record.stem ≠ firstWord name)) := by
  obtain ⟨entries, records, there, read, shown⟩ := Run.exists_records_of_list listed
  refine ⟨entries, records, there, read, shown, ?_⟩
  intro record mem command analyzed name entry found
  have stem : command.stem = record.stem := (Binding.errorPlaces_of_command analyzed).1
  have inside : entry ∈ listing.entries := by
    rw [shown]
    exact List.mem_filterMap.2 ⟨record, mem, by simp [Job.shown, analyzed, stem, entry]⟩
  have finding : found ↔ name ≠ record.stem := otherName_mem_iff analyzed
  have mark : commandItem entry = marked entry ↔ firstWord name ≠ record.stem := by
    rw [commandItem_eq_marked, firstWord_signature]
  refine ⟨inside, commandItem_mem inside, finding, mark, ?_⟩
  rw [finding, mark]
  by_cases space : ' ' ∈ name.toList
  · -- A stem cannot be both the name and its first word, so being one of them is what tells them apart.
    have shorter : firstWord name ≠ name := fun same => firstWord_eq_self.1 same space
    grind
  · rw [firstWord_eq_self.2 space]
    simp [space]

/-- Pages of which two have a space in the name of their command, and two another name than it. -/
def spacedPages : FileTree :=
  let page (text : String) : FileEntry := .file (.text text)
  { working := []
    entries := [
      (["doc"], .directory),
      (["doc", "lightning-dev.7.md"], page "**dev rescan** *id*\n\nDESCRIPTION\n"),
      (["doc", "lightning-get info.7.md"], page "**get info**\n\nDESCRIPTION\n"),
      (["doc", "lightning-pay.7.md"], page "**xpay** *invoice*\n\nDESCRIPTION\n"),
      (["doc", "schemas"], .directory),
      (["doc", "schemas", "dev.schema.json"], page "true"),
      (["doc", "schemas", "get info.schema.json"], page "true"),
      (["doc", "schemas", "pay.schema.json"], page "true")] }

theorem entries_spacedPages : (jobOf default).entries spacedPages =
    .ok (["dev", "get info", "pay"].map fun stem =>
      ⟨⟨"doc/lightning-" ++ stem ++ ".7.md"⟩, stem⟩) := by
  have leads : spacedPages.locate (jobOf default).project.docsDir = .ok ["doc"] := by
    decide +kernel
  exact Job.entries_of_sorted leads rfl (by decide +kernel) (by decide +kernel)

theorem list_spacedPages : Run.list (jobOf default).project spacedPages =
    .ok ⟨[("dev", "dev rescan <id>"), ("get info", "get info"), ("pay", "xpay <invoice>")], []⟩ := by
  have shown : (Run.list (jobOf default).project spacedPages).toOption.map id =
      some ⟨[("dev", "dev rescan <id>"), ("get info", "get info"), ("pay", "xpay <invoice>")], []⟩ := by
    have found : Manual.enumerate spacedPages (jobOf default).project.docsDir
        (jobOf default).project.settings.input = _ := entries_spacedPages
    unfold Run.list
    rw [found]
    decide +kernel
  obtain ⟨listing, listed, rfl⟩ := map_toOption_eq_some.1 shown
  exact listed

theorem listing_marks_iff_spacedPages :
    let job := jobOf default
    ∃ (listing : Listing) (records : List Manual.Record),
      Run.list job.project spacedPages = .ok listing ∧
      listing.entries = [("dev", "dev rescan <id>"), ("get info", "get info"),
        ("pay", "xpay <invoice>")] ∧
      listing.entries = records.filterMap job.shown ∧
      ∀ record ∈ records, ∀ command, (job.analysis record).command = some command →
        let name := command.descriptor.name
        let entry := (record.stem, command.descriptor.signature)
        (commandItem entry = marked entry ↔
            otherName record.stem name ∈ (job.analysis record).diagnostics) ↔
          (' ' ∈ name.toList → record.stem ≠ name ∧ record.stem ≠ firstWord name) := by
  intro job
  obtain ⟨entries, records, -, -, shown, each⟩ :=
    listing_marks_iff job spacedPages _ list_spacedPages
  refine ⟨_, records, list_spacedPages, rfl, shown, ?_⟩
  intro record mem command analyzed
  exact (each record mem command analyzed).2.2.2.2

/-- Findings name a command whose first word is the stem, and the report does not mark it. The report
marks a command that has the stem with its space for its name, and no finding names it. -/
theorem spaced_names_marked_wrongly :
    ∃ listing summary, Run.list (jobOf default).project spacedPages = .ok listing ∧
      listingNotices listing = [.heading "Commands", .item "dev rescan <id>",
        .item "get info  (documented as get info)", .item "xpay <invoice>  (documented as pay)"] ∧
      ((jobOf default).run .preview spacedPages).result = .ok summary ∧
      summary.diagnostics = [otherName "dev" "dev rescan", otherName "pay" "xpay"] := by
  have ran : ((jobOf default).run .preview spacedPages).result.toOption.map (·.diagnostics) =
      some [otherName "dev" "dev rescan", otherName "pay" "xpay"] := by
    unfold Job.run
    rw [entries_spacedPages]
    decide +kernel
  obtain ⟨summary, done, found⟩ := map_toOption_eq_some.1 ran
  exact ⟨_, summary, list_spacedPages, by decide +kernel, done, found⟩

end Bindery.Report
