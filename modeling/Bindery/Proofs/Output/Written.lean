import Bindery.Output.GeneratedFile
import Bindery.Proofs.FileTree.Making

/-!
# What was written

Files that are written one after another change a tree only where their paths lead: there the last
of them stands. Besides, there are more directories.
-/

namespace Bindery.Output
set_option autoImplicit false

variable {tree after final : FileTree} {files more : List GeneratedFile} {file : GeneratedFile}
  {place : Place}

/-- The path of one of the files leads to a place. -/
def Reach (files : List GeneratedFile) (tree : FileTree) (place : Place) : Prop :=
  ∃ file ∈ files, tree.locate file.path = .ok place

/-- The last of the files whose paths lead to a place. -/
inductive LastAt (tree : FileTree) (place : Place) : List GeneratedFile → GeneratedFile → Prop
  | here {file : GeneratedFile} {rest : List GeneratedFile}
      (leads : tree.locate file.path = .ok place) (none : ¬Reach rest tree place) :
      LastAt tree place (file :: rest) file
  | later {first file : GeneratedFile} {rest : List GeneratedFile}
      (last : LastAt tree place rest file) : LastAt tree place (first :: rest) file

theorem Reach.mono (h : Reach files tree place) (subset : files ⊆ more)
    (grows : tree.Grows after) : Reach more after place := by
  obtain ⟨file, mem, leads⟩ := h
  exact ⟨file, subset mem, grows.locate leads⟩

theorem reach_append :
    Reach (files ++ more) tree place ↔ Reach files tree place ∨ Reach more tree place := by
  simp only [Reach, List.mem_append, or_and_right, exists_or]

namespace LastAt

theorem exists_of_reach (h : Reach files tree place) : ∃ file, LastAt tree place files file := by
  induction files with
  | nil =>
    obtain ⟨file, mem, -⟩ := h
    cases mem
  | cons first rest ih =>
    by_cases later : Reach rest tree place
    · obtain ⟨file, last⟩ := ih later
      exact ⟨file, .later last⟩
    · obtain ⟨file, mem, leads⟩ := h
      rcases List.mem_cons.1 mem with rfl | mem
      · exact ⟨file, .here leads later⟩
      · exact absurd ⟨file, mem, leads⟩ later

theorem of_append (h : LastAt tree place (files ++ more) file) :
    LastAt tree place more file ∨ LastAt tree place files file ∧ ¬Reach more tree place := by
  induction files with
  | nil => exact .inl h
  | cons first rest ih =>
    cases h with
    | here leads none =>
      have none : ¬Reach (rest ++ more) tree place := none
      rw [reach_append, not_or] at none
      exact .inr ⟨.here leads none.1, none.2⟩
    | later last =>
      rcases ih last with last | ⟨last, none⟩
      · exact .inl last
      · exact .inr ⟨.later last, none⟩

/-- Only where the paths of the files lead matters. -/
theorem congr (same : ∀ file ∈ files, after.locate file.path = tree.locate file.path)
    (h : LastAt tree place files file) : LastAt after place files file := by
  induction h with
  | here leads none =>
    obtain ⟨here, later⟩ := List.forall_mem_cons.1 same
    refine .here (here.trans leads) ?_
    rintro ⟨other, mem, leads⟩
    exact none ⟨other, mem, (later other mem).symm.trans leads⟩
  | later last ih => exact .later (ih (List.forall_mem_cons.1 same).2)

end LastAt

/-- Files were written one after another. -/
structure Wrote (tree : FileTree) (files : List GeneratedFile) (after : FileTree) : Prop where
  working : after.working = tree.working
  leads : ∀ file ∈ files, ∃ place, after.locate file.path = .ok place ∧
    tree.lookup place ≠ some .directory
  last : ∀ {place file}, LastAt after place files file →
    after.lookup place = some (.file (.text file.content))
  others : ∀ {place}, ¬Reach files after place → tree.Spares after place
  distinct : tree.HasDistinctPlaces → after.HasDistinctPlaces

namespace Wrote

theorem file_of_reach (h : Wrote tree files after) (reach : Reach files after place) :
    ∃ text, after.lookup place = some (.file (.text text)) := by
  obtain ⟨file, last⟩ := LastAt.exists_of_reach reach
  exact ⟨file.content, h.last last⟩

theorem grows (h : Wrote tree files after) : tree.Grows after where
  working := h.working
  directory {place} found := by
    have apart : ¬Reach files after place := by
      rintro ⟨file, mem, leads⟩
      obtain ⟨place', leads', free⟩ := h.leads file mem
      rw [leads] at leads'
      cases leads'
      exact free found
    exact (h.others apart).directory found
  file {place content} found := by
    by_cases reach : Reach files after place
    · obtain ⟨text, there⟩ := h.file_of_reach reach
      exact ⟨_, there⟩
    · exact ⟨content, (h.others reach).file_iff.2 found⟩

/-- A path leads to the file it led to before, if it led somewhere and nothing was written there. -/
theorem entryAt_file_iff (h : Wrote tree files after) {path : Path} {content : FileContent}
    (before : ∀ place, after.locate path = .ok place → tree.locate path = .ok place)
    (apart : ∀ place, tree.locate path = .ok place → ¬Reach files after place) :
    after.entryAt path = .ok (.file content) ↔ tree.entryAt path = .ok (.file content) := by
  rw [FileTree.entryAt_eq_ok, FileTree.entryAt_eq_ok]
  constructor
  · rintro ⟨place, leads, found⟩
    have leads := before place leads
    exact ⟨place, leads, (h.others (apart place leads)).file_iff.1 found⟩
  · rintro ⟨place, leads, found⟩
    exact ⟨place, h.grows.locate leads, (h.others (apart place leads)).file_iff.2 found⟩

/-- Making directories writes no files. -/
theorem of_made (h : tree.Made after) : Wrote tree [] after where
  working := h.working
  leads := nofun
  last := nofun
  others := fun _ => h.spares _
  distinct := h.distinct

theorem refl (tree : FileTree) : Wrote tree [] tree :=
  .of_made (.refl tree)

theorem trans (h : Wrote tree files after) (g : Wrote after more final) :
    Wrote tree (files ++ more) final where
  working := g.working.trans h.working
  leads file mem := by
    rcases List.mem_append.1 mem with mem | mem
    · obtain ⟨place, leads, free⟩ := h.leads file mem
      exact ⟨place, g.grows.locate leads, free⟩
    · obtain ⟨place, leads, free⟩ := g.leads file mem
      exact ⟨place, leads, fun found => free (h.grows.directory found)⟩
  last {place file} last := by
    rcases last.of_append with last | ⟨last, none⟩
    · exact g.last last
    · have same : ∀ file ∈ files, after.locate file.path = final.locate file.path := by
        intro file mem
        obtain ⟨place, leads, -⟩ := h.leads file mem
        rw [leads, g.grows.locate leads]
      exact (g.others none).file_iff.2 (h.last (last.congr same))
  others {place} apart := by
    rw [reach_append, not_or] at apart
    have apart' : ¬Reach files after place := fun reach =>
      apart.1 (reach.mono (List.Subset.refl _) g.grows)
    exact (h.others apart').trans (g.others apart.2)
  distinct := g.distinct ∘ h.distinct

theorem of_insert (leads : tree.locate file.path = .ok place)
    (free : tree.lookup place ≠ some .directory) :
    Wrote tree [file] (tree.insert place (.file (.text file.content))) := by
  have grows := FileTree.grows_insert_file free (.text file.content)
  have inner := FileTree.ne_nil_of_lookup free
  have put := FileTree.lookup_insert tree inner (.file (.text file.content))
  have only {place' : Place} {other : GeneratedFile} (mem : other ∈ [file])
      (leads' : (tree.insert place (.file (.text file.content))).locate other.path = .ok place') :
      other = file ∧ place' = place := by
    rw [List.mem_singleton.1 mem, grows.locate leads] at leads'
    cases leads'
    exact ⟨List.mem_singleton.1 mem, rfl⟩
  refine ⟨rfl, fun other mem => ?_, fun {place' other} last => ?_, fun {place'} apart => ?_,
    fun distinct => distinct.insert inner _⟩
  · rw [List.mem_singleton.1 mem]
    exact ⟨place, grows.locate leads, free⟩
  · cases last with
    | here leads' _ =>
      rw [(only List.mem_cons_self leads').2, put, if_pos rfl]
    | later last => cases last
  · have other : place' ≠ place := by
      rintro rfl
      exact apart ⟨file, List.mem_cons_self, grows.locate leads⟩
    exact .inl (by rw [put, if_neg other])

/-- What a write does, whether it works or not. -/
theorem of_write {worked : Bool}
    (done : tree.write file.path (.text file.content) = (after, worked)) :
    Wrote tree (if worked then [file] else []) after := by
  cases FileTree.exit_of_write done with
  | written parent leads free => exact (of_made (.makeParent parent)).trans (of_insert leads free)
  | noParent parent => exact of_made (.makeParent parent)
  | noFile parent _ => exact of_made (.makeParent parent)

end Wrote

end Bindery.Output
