import Bindery.Proofs.Manual.Pages
import Bindery.Proofs.Run.Writes

/-!
# What a run reads

A generation reads a page while the files of the pages before it are already in the tree. If it
writes over nothing that it reads, and makes no directory that leads to a schema, each page is read
as it would have been at the start.
-/

namespace Bindery.Run
set_option autoImplicit false

open Manual (Entry isPageName)
open Output (GeneratedFile Reach Wrote)

namespace Job

/-- The file of a page's schema. -/
def schemaPath (job : Job) (entry : Entry) : Path :=
  Manual.schemaPath job.project.schemasDir job.project.settings.input entry.stem

/-- The places that a job reads: pages, their schemas, and all places whose files are pages. -/
inductive IsInput (job : Job) (tree : FileTree) : Place → Prop
  | page {entries : List Entry} {entry : Entry} {place : Place}
      (found : job.entries tree = .ok entries) (mem : entry ∈ entries)
      (leads : tree.locate entry.path = .ok place) : IsInput job tree place
  | schema {entries : List Entry} {entry : Entry} {place : Place}
      (found : job.entries tree = .ok entries) (mem : entry ∈ entries)
      (leads : tree.locate (job.schemaPath entry) = .ok place) : IsInput job tree place
  | named {docs : Place} {name : String} (leads : tree.locate job.project.docsDir = .ok docs)
      (called : isPageName job.project.settings.input.suffix name = true) :
      IsInput job tree (docs ++ [name])

/-- A generation writes no file where it reads one. -/
def KeepsInputs (job : Job) (tree : FileTree) : Prop :=
  ∀ place, Reach (job.generate tree).delivery.files (job.generate tree).delivery.tree place →
    ¬job.IsInput tree place

/-- A generation makes no directory that leads to a schema. -/
def KeepsPaths (job : Job) (tree : FileTree) : Prop :=
  ∀ entries, job.entries tree = .ok entries → ∀ entry ∈ entries, ∀ place,
    (job.generate tree).delivery.tree.locate (job.schemaPath entry) = .ok place →
      tree.locate (job.schemaPath entry) = .ok place

end Job

section Reading

variable {job : Job} {tree now : FileTree} {files : List GeneratedFile} {entries : List Entry}

/-- The tree at a moment of a generation, or of one that follows it. -/
structure During (job : Job) (tree : FileTree) (files : List GeneratedFile) (now : FileTree) :
    Prop where
  wrote : Wrote tree files now
  subset : files ⊆ (job.generate tree).delivery.files
  grows : now.Grows (job.generate tree).delivery.tree

theorem During.apart (h : During job tree files now) (keeps : job.KeepsInputs tree) {place : Place}
    (input : job.IsInput tree place) : ¬Reach files now place :=
  fun reach => keeps place (reach.mono h.subset h.grows) input

/-- At any moment the pages are those of the start. -/
theorem During.entries_eq (h : During job tree files now) (distinct : tree.HasDistinctPlaces)
    (keeps : job.KeepsInputs tree) (found : job.entries tree = .ok entries) :
    job.entries now = .ok entries := by
  obtain ⟨place, stems, leads, directory, named, same⟩ := Manual.enumerate_eq_ok.1 found
  refine Manual.enumerate_eq_ok.2
    ⟨place, stems, h.wrote.grows.locate leads, h.wrote.grows.directory directory, ?_, same⟩
  rw [← named, Manual.pageNames_eq distinct leads directory
    (h.wrote.distinct distinct) (h.wrote.grows.locate leads)
    (h.wrote.grows.directory directory)]
  intro name called
  exact exists_congr fun _ => (h.wrote.others (h.apart keeps (.named leads called))).file_iff

/-- At any moment a page is read as at the start. -/
theorem During.read_eq (h : During job tree files now) (distinct : tree.HasDistinctPlaces)
    (keeps : job.KeepsInputs tree) (paths : job.KeepsPaths tree)
    (found : job.entries tree = .ok entries) {entry : Entry} (mem : entry ∈ entries) :
    entry.read now job.project.schemasDir job.project.settings.input =
      entry.read tree job.project.schemasDir job.project.settings.input := by
  have page : now.entryAt entry.path = tree.entryAt entry.path := by
    obtain ⟨docs, name, content, leads, directory, ⟨called, isName, -⟩, file, rfl⟩ :=
      Manual.page_of_enumerate distinct found mem
    have kept := (h.wrote.others (h.apart keeps (.named leads called))).file_iff.2 file
    unfold FileTree.entryAt
    rw [FileTree.locate_join leads directory isName,
      FileTree.locate_join (h.wrote.grows.locate leads) (h.wrote.grows.directory directory) isName]
    split
    · rfl
    · split
      · rfl
      · simp only [bind, Except.bind, kept, file]
  have schema (content : FileContent) :
      now.entryAt (job.schemaPath entry) = .ok (.file content) ↔
        tree.entryAt (job.schemaPath entry) = .ok (.file content) :=
    h.wrote.entryAt_file_iff
      (fun place leads => paths entries found entry mem place (h.grows.locate leads))
      (fun place leads => h.apart keeps (.schema found mem leads))
  exact Manual.Entry.read_congr page schema

/-- At any moment a page is taken as at the start. -/
theorem During.step_eq (h : During job tree files now) (distinct : tree.HasDistinctPlaces)
    (keeps : job.KeepsInputs tree) (paths : job.KeepsPaths tree)
    (found : job.entries tree = .ok entries) {entry : Entry} (mem : entry ∈ entries)
    (progress : Progress) : job.step now progress entry = job.step tree progress entry := by
  unfold Job.step
  rw [h.read_eq distinct keeps paths found mem]

/-- The tree of a generation between its start and its end. -/
theorem During.of_delivers {delivery : Delivery} (before : Delivers ⟨tree, []⟩ delivery)
    (after : Delivers delivery (job.generate tree).delivery) :
    During job tree delivery.files delivery.tree :=
  ⟨before.wrote, after.subset, after.grows⟩

end Reading

end Bindery.Run
