import Bindery.Proofs.FileTree.Places

/-!
# Trees that grow

Making directories and writing files removes nothing, and no file takes the place of a directory or
the other way round. So a path that leads somewhere leads there ever after.
-/

namespace Bindery.FileTree
set_option autoImplicit false

/-- What a tree holds is still there, files perhaps with another content. -/
structure Grows (tree after : FileTree) : Prop where
  working : after.working = tree.working
  directory : ∀ {place}, tree.lookup place = some .directory →
    after.lookup place = some .directory
  file : ∀ {place content}, tree.lookup place = some (.file content) →
    ∃ content', after.lookup place = some (.file content')

/-- Two trees have their directories and their files in the same places. -/
structure Alike (tree other : FileTree) : Prop extends Grows tree other where
  nothing : ∀ {place}, tree.lookup place = none → other.lookup place = none

variable {tree after last : FileTree} {place next : Place} {part : List Char} {path : Path}
  {content : FileContent}

/-- A step from a directory does not depend on anything else in the tree. -/
theorem step_of_directory (here : tree.lookup place = some .directory)
    (there : after.lookup place = some .directory) :
    after.step place part = tree.step place part := by
  unfold step
  rw [here, there]

theorem directory_of_step (taken : tree.step place part = .ok next) :
    tree.lookup place = some .directory := by
  unfold step at taken
  split at taken
  · cases taken
  · cases taken
  · next found => exact found

/-- Where the directories of one tree are directories of another, its paths lead there as well. -/
theorem locate_of_directories (working : after.working = tree.working)
    (directory : ∀ {place}, tree.lookup place = some .directory →
      after.lookup place = some .directory)
    (leads : tree.locate path = .ok place) : after.locate path = .ok place := by
  unfold locate startOf at leads ⊢
  split at leads
  · cases leads
  · rw [working]
    generalize (if path.isAbsolute then [] else tree.working) = start at leads ⊢
    generalize path.parts = parts at leads ⊢
    induction parts generalizing start with
    | nil => exact leads
    | cons part parts ih =>
      rw [List.foldlM_cons, bind_eq_ok] at leads ⊢
      obtain ⟨next, taken, rest⟩ := leads
      have here := directory_of_step taken
      exact ⟨next, (step_of_directory here (directory here)).trans taken, ih next rest⟩

namespace Grows

theorem trans (h : Grows tree after) (g : Grows after last) : Grows tree last where
  working := g.working.trans h.working
  directory found := g.directory (h.directory found)
  file found := by
    obtain ⟨_, found⟩ := h.file found
    exact g.file found

theorem step (h : Grows tree after) (taken : tree.step place part = .ok next) :
    after.step place part = .ok next := by
  have here := directory_of_step taken
  rw [step_of_directory here (h.directory here), taken]

/-- A path leads where it led before. -/
theorem locate (h : Grows tree after) (leads : tree.locate path = .ok place) :
    after.locate path = .ok place :=
  locate_of_directories h.working h.directory leads

end Grows

namespace Alike

variable {other : FileTree}

theorem kinds (h : Alike tree other) (place : Place) :
    (tree.lookup place = none ∧ other.lookup place = none) ∨
      (tree.lookup place = some .directory ∧ other.lookup place = some .directory) ∨
        ∃ content content', tree.lookup place = some (.file content) ∧
          other.lookup place = some (.file content') := by
  cases found : tree.lookup place with
  | none => exact .inl ⟨rfl, h.nothing found⟩
  | some entry =>
    cases entry with
    | directory => exact .inr (.inl ⟨rfl, h.directory found⟩)
    | file content =>
      obtain ⟨content', there⟩ := h.file found
      exact .inr (.inr ⟨content, content', rfl, there⟩)

theorem symm (h : Alike tree other) : Alike other tree where
  working := h.working.symm
  directory {place} found := by
    rcases h.kinds place with ⟨-, there⟩ | ⟨here, -⟩ | ⟨_, _, -, there⟩
    · simp [there] at found
    · exact here
    · simp [there] at found
  file {place content} found := by
    rcases h.kinds place with ⟨-, there⟩ | ⟨-, there⟩ | ⟨content', _, here, -⟩
    · simp [there] at found
    · simp [there] at found
    · exact ⟨content', here⟩
  nothing {place} found := by
    rcases h.kinds place with ⟨here, -⟩ | ⟨-, there⟩ | ⟨_, _, -, there⟩
    · exact here
    · simp [there] at found
    · simp [there] at found

theorem step_eq (h : Alike tree other) (place : Place) (part : List Char) :
    other.step place part = tree.step place part := by
  unfold FileTree.step
  rcases h.kinds place with ⟨here, there⟩ | ⟨here, there⟩ | ⟨_, _, here, there⟩
  all_goals rw [here, there]

theorem locate_eq (h : Alike tree other) (path : Path) : other.locate path = tree.locate path := by
  have same : other.step = tree.step := funext fun place => funext fun part => h.step_eq place part
  unfold FileTree.locate startOf
  rw [same, h.working]

end Alike

/-- A tree that grew at no new place is of the same kind. -/
theorem Grows.alike (h : Grows tree after)
    (places : after.entries.map (·.1) = tree.entries.map (·.1)) : Alike tree after where
  toGrows := h
  nothing {place} vacant := by
    unfold lookup at vacant ⊢
    split at vacant
    · cases vacant
    · next inner =>
      rw [if_neg inner]
      refine lookup_of_not_mem_keys ?_
      rw [places]
      intro mem
      obtain ⟨entry, mem, same⟩ := List.mem_map.1 mem
      simpa [same] using List.lookup_eq_none_iff.1 vacant entry mem

theorem grows_insert_file (free : tree.lookup place ≠ some .directory) (content : FileContent) :
    Grows tree (tree.insert place (.file content)) := by
  have inner : place ≠ [] := ne_nil_of_lookup free
  refine ⟨rfl, fun {other} found => ?_, fun {other _} found => ?_⟩
  · rw [lookup_insert tree inner]
    split
    · next same => exact absurd (same ▸ found) free
    · exact found
  · rw [lookup_insert tree inner]
    split
    · exact ⟨content, rfl⟩
    · exact ⟨_, found⟩

/-! ## Places that are spared -/

/-- A place is as it was, but for a directory that may have been made where nothing was. -/
def Spares (tree after : FileTree) (place : Place) : Prop :=
  after.lookup place = tree.lookup place ∨
    tree.lookup place = none ∧ after.lookup place = some .directory

namespace Spares

theorem trans (h : Spares tree after place) (g : Spares after last place) :
    Spares tree last place := by
  rcases h with same | ⟨vacant, made⟩
  · unfold Spares at g ⊢
    rwa [← same]
  · rcases g with same | ⟨vacant', -⟩
    · exact .inr ⟨vacant, same.trans made⟩
    · rw [made] at vacant'
      cases vacant'

theorem directory (h : Spares tree after place) (found : tree.lookup place = some .directory) :
    after.lookup place = some .directory := by
  rcases h with same | ⟨-, made⟩
  · rw [same, found]
  · exact made

/-- The files are those that were there. -/
theorem file_iff (h : Spares tree after place) :
    after.lookup place = some (.file content) ↔ tree.lookup place = some (.file content) := by
  rcases h with same | ⟨vacant, made⟩
  · rw [same]
  · simp [vacant, made]

end Spares

end Bindery.FileTree
