import Bindery.Proofs.FileTree.Growth

/-!
# Making directories and writing

A tree only grows while directories are made and files are written, and what was made or written
once can be made or written again without further ado. Where it did not work, it does not work in
any tree of the same kind.
-/

namespace Bindery.FileTree
set_option autoImplicit false

variable {tree after last : FileTree} {place next : Place} {part : List Char} {path : Path}

/-! ## Making directories -/

/-- Directories were made where nothing was, and nothing else was done. -/
structure Made (tree made : FileTree) : Prop where
  working : made.working = tree.working
  spares : ∀ place, Spares tree made place
  distinct : tree.HasDistinctPlaces → made.HasDistinctPlaces

namespace Made

variable {made : FileTree}

theorem refl (tree : FileTree) : Made tree tree :=
  ⟨rfl, fun _ => .inl rfl, id⟩

theorem trans (h : Made tree made) (g : Made made last) : Made tree last where
  working := g.working.trans h.working
  spares place := (h.spares place).trans (g.spares place)
  distinct := g.distinct ∘ h.distinct

theorem grows (h : Made tree made) : Grows tree made where
  working := h.working
  directory found := (h.spares _).directory found
  file found := ⟨_, (h.spares _).file_iff.2 found⟩

/-- A directory that was entered is there. -/
theorem enter (done : tree.enter place part = .ok (made, next)) :
    Made tree made ∧ tree.step place part = .ok next ∧ made.lookup next = some .directory := by
  unfold FileTree.enter at done
  cases taken : tree.step place part with
  | error fault =>
    rw [taken] at done
    cases done
  | ok reached =>
    simp only [taken, bind, Except.bind] at done
    split at done
    · next found =>
      cases done
      exact ⟨.refl tree, rfl, found⟩
    · cases done
    · next vacant =>
      cases done
      have free : tree.lookup next ≠ some .directory := by simp [vacant]
      have inner := ne_nil_of_lookup free
      have put := lookup_insert tree inner .directory
      refine ⟨⟨rfl, fun other => ?_, fun distinct => distinct.insert inner _⟩, rfl, ?_⟩
      · unfold Spares
        rw [put]
        split
        · next same => exact .inr ⟨same ▸ vacant, rfl⟩
        · exact .inl rfl
      · rw [put, if_pos rfl]

theorem enterAll {parts : List (List Char)} {worked : Bool}
    (done : tree.enterAll place parts = (made, worked)) : Made tree made := by
  induction parts generalizing tree place with
  | nil =>
    cases done
    exact .refl _
  | cons part parts ih =>
    unfold FileTree.enterAll at done
    split at done
    · next entered => exact (enter entered).1.trans (ih done)
    · cases done
      exact .refl _

theorem makeDirectory {worked : Bool} (done : tree.makeDirectory path = (made, worked)) :
    Made tree made := by
  unfold FileTree.makeDirectory at done
  split at done
  · cases done
    exact .refl _
  · split at done
    · cases done
      exact .refl _
    · exact enterAll done

end Made

/-- What cannot be entered cannot be entered in a tree of the same kind. -/
theorem Alike.enter_eq_error (h : Alike tree after) {fault : AccessFault}
    (failed : tree.enter place part = .error fault) : after.enter place part = .error fault := by
  unfold enter at failed ⊢
  rw [h.step_eq]
  cases taken : tree.step place part with
  | error other =>
    rw [taken] at failed
    exact failed
  | ok next =>
    simp only [taken, bind, Except.bind] at failed ⊢
    split at failed
    · cases failed
    · next found =>
      obtain ⟨content, there⟩ := h.file found
      rw [there]
      exact failed
    · cases failed

/-- Directories that were made are only passed through when they are to be made again; where that
did not work, it does not work in a tree of the same kind. -/
theorem enterAll_again {made later : FileTree} {parts : List (List Char)} {worked : Bool}
    (done : tree.enterAll place parts = (made, worked)) (grows : Grows made later)
    (alike : worked = false → Alike made later) : later.enterAll place parts = (later, worked) := by
  induction parts generalizing tree place with
  | nil =>
    cases done
    rfl
  | cons part parts ih =>
    unfold enterAll at done ⊢
    split at done
    · next entered next taken =>
      -- What this step made is still there once all steps behind it are taken, and later.
      obtain ⟨first, step, there⟩ := Made.enter taken
      have rest := (Made.enterAll done).grows.trans grows
      have step := (first.grows.trans rest).step step
      have there := rest.directory there
      have passed : later.enter place part = .ok (later, next) := by
        simp only [enter, step, bind, Except.bind, there]
      rw [passed]
      exact ih done
    · next fault failed =>
      cases done
      rw [(alike rfl).enter_eq_error failed]

theorem makeDirectory_again {made later : FileTree} {worked : Bool}
    (done : tree.makeDirectory path = (made, worked)) (grows : Grows made later)
    (alike : worked = false → Alike made later) :
    later.makeDirectory path = (later, worked) := by
  have start : later.startOf path = tree.startOf path := by
    unfold startOf
    rw [grows.working, (Made.makeDirectory done).working]
  unfold makeDirectory at done ⊢
  split at done
  · next empty =>
    cases done
    rw [if_pos empty]
  · next some =>
    rw [if_neg some]
    split at done
    · cases done
      rfl
    · rw [start]
      exact enterAll_again done grows alike

/-! ## Writing -/

/-- Makes the directory of a path, if it has one: the tree then, and whether it worked. -/
def makeParent (tree : FileTree) (path : Path) : FileTree × Bool :=
  match path.parent? with
  | some dir => tree.makeDirectory dir
  | none => (tree, true)

theorem Made.makeParent {made : FileTree} {worked : Bool}
    (done : tree.makeParent path = (made, worked)) : Made tree made := by
  unfold FileTree.makeParent at done
  split at done
  · exact Made.makeDirectory done
  · cases done
    exact .refl _

theorem makeParent_again {made later : FileTree} {worked : Bool}
    (done : tree.makeParent path = (made, worked)) (grows : Grows made later)
    (alike : worked = false → Alike made later) : later.makeParent path = (later, worked) := by
  unfold makeParent at done ⊢
  split at done
  · exact makeDirectory_again done grows alike
  · cases done
    rfl

theorem writeFile?_eq_some {content : FileContent} (leads : tree.locate path = .ok place)
    (free : tree.lookup place ≠ some .directory) :
    tree.writeFile? path content = some (tree.insert place (.file content)) := by
  cases found : tree.lookup place with
  | none => simp only [writeFile?, leads, found]
  | some entry =>
    cases entry with
    | directory => exact absurd found free
    | file old => simp only [writeFile?, leads, found]

/-- How a write ends: the file stands where its path leads, or there are only more directories. -/
inductive WriteExit (tree : FileTree) (path : Path) (content : FileContent) :
    FileTree → Bool → Prop
  | written {made : FileTree} {place : Place} (parent : tree.makeParent path = (made, true))
      (leads : made.locate path = .ok place) (free : made.lookup place ≠ some .directory) :
      WriteExit tree path content (made.insert place (.file content)) true
  | noParent {made : FileTree} (parent : tree.makeParent path = (made, false)) :
      WriteExit tree path content made false
  | noFile {made : FileTree} (parent : tree.makeParent path = (made, true))
      (failed : made.writeFile? path content = none) : WriteExit tree path content made false

theorem write_eq (tree : FileTree) (path : Path) (content : FileContent) :
    tree.write path content =
      if (tree.makeParent path).2 then
        match (tree.makeParent path).1.writeFile? path content with
        | some after => (after, true)
        | none => ((tree.makeParent path).1, false)
      else ((tree.makeParent path).1, false) :=
  rfl

theorem exit_of_write {content : FileContent} {worked : Bool}
    (done : tree.write path content = (after, worked)) :
    WriteExit tree path content after worked := by
  rw [write_eq] at done
  obtain ⟨made, made?⟩ : ∃ made, tree.makeParent path = made := ⟨_, rfl⟩
  obtain ⟨made, worked⟩ := made
  rw [made?] at done
  cases worked with
  | false =>
    cases done
    exact .noParent made?
  | true =>
    simp only [if_true] at done
    cases wrote : made.writeFile? path content with
    | none =>
      rw [wrote] at done
      cases done
      exact .noFile made? wrote
    | some last =>
      rw [wrote] at done
      cases done
      unfold writeFile? at wrote
      split at wrote
      · next place leads =>
        split at wrote
        · cases wrote
        · next free =>
          cases wrote
          exact .written made? leads (free ·)
      · cases wrote

/-- A file that was written can be written again, and there is nothing else to do. -/
theorem write_again {content : FileContent} {later : FileTree}
    (done : tree.write path content = (after, true)) (grows : Grows after later) :
    ∃ place old, later.lookup place = some (.file old) ∧
      later.write path content = (later.insert place (.file content), true) := by
  cases exit_of_write done with
  | @written made place parent leads free =>
    have first := grows_insert_file free content
    have wrote : (made.insert place (.file content)).lookup place = some (.file content) := by
      rw [lookup_insert made (ne_nil_of_lookup free), if_pos rfl]
    obtain ⟨old, there⟩ := grows.file wrote
    refine ⟨place, old, there, ?_⟩
    have again := makeParent_again parent (first.trans grows) nofun
    have leads := (first.trans grows).locate leads
    rw [write_eq, again, if_pos rfl, writeFile?_eq_some leads (by simp [there])]

/-- Where a write failed, it fails again. -/
theorem write_fails_again {content : FileContent} {later : FileTree}
    (failed : tree.write path content = (after, false)) (alike : Alike after later) :
    later.write path content = (later, false) := by
  cases exit_of_write failed with
  | noParent parent =>
    rw [write_eq, makeParent_again parent alike.toGrows fun _ => alike]
    rfl
  | noFile parent failed =>
    have failed' : later.writeFile? path content = none := by
      unfold writeFile? at failed ⊢
      rw [alike.locate_eq]
      split at failed
      · next place leads =>
        split at failed
        · next directory => rw [alike.directory directory]
        · cases failed
      · rfl
    rw [write_eq, makeParent_again parent alike.toGrows nofun, if_pos rfl, failed']

end Bindery.FileTree
