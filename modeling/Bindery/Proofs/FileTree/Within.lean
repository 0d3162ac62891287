import Bindery.Proofs.FileTree.Making

/-!
# Trees with fewer files

A tree that has the directories of another and some of its files leads where the other leads. What
is read in it is read in the other as well, and what can be written into the other can be written
into it, and it stays within the other.
-/

namespace Bindery.FileTree
set_option autoImplicit false

/-- A tree has the directories of another and some of its files. -/
structure Within (fewer tree : FileTree) : Prop where
  working : fewer.working = tree.working
  directory : ∀ {place},
    fewer.lookup place = some .directory ↔ tree.lookup place = some .directory
  file : ∀ {place content}, fewer.lookup place = some (.file content) →
    tree.lookup place = some (.file content)

variable {fewer tree after : FileTree} {place next : Place} {part : List Char} {path : Path}
  {content : FileContent}

namespace Within

theorem vacant (h : Within fewer tree) (absent : tree.lookup place = none) :
    fewer.lookup place = none := by
  cases found : fewer.lookup place with
  | none => rfl
  | some entry =>
    cases entry with
    | directory =>
      rw [h.directory, absent] at found
      cases found
    | file content =>
      rw [h.file found] at absent
      cases absent

end Within

/-! ## Taking files out -/

/-- A tree without what is at some places. -/
def without (tree : FileTree) (places : List Place) : FileTree :=
  { tree with entries := tree.entries.filter (·.1 ∉ places) }

theorem lookup_without (tree : FileTree) (places : List Place) (inner : place ≠ []) :
    (tree.without places).lookup place = if place ∈ places then none else tree.lookup place := by
  unfold lookup without
  simp only [if_neg inner]
  induction tree.entries with
  | nil => simp
  | cons e rest ih =>
    by_cases gone : e.1 ∈ places
    · rw [List.filter_cons_of_neg (by simpa using gone), ih]
      by_cases here : place = e.1
      · rw [here, if_pos gone, if_pos gone]
      · rw [List.lookup_cons, beq_false_of_ne here]
    · rw [List.filter_cons_of_pos (by simpa using gone), List.lookup_cons, List.lookup_cons, ih]
      by_cases here : place = e.1
      · simp [here, gone]
      · rw [beq_false_of_ne here]

theorem within_without {places : List Place}
    (files : ∀ place ∈ places, tree.lookup place ≠ some .directory) :
    Within (tree.without places) tree := by
  refine ⟨rfl, fun {place} => ?_, fun {place content} found => ?_⟩
  · by_cases root : place = []
    · subst root
      exact Iff.rfl
    · rw [lookup_without tree places root]
      split
      · next gone => simpa using files place gone
      · exact Iff.rfl
  · have file : (tree.without places).lookup place ≠ some .directory := by simp [found]
    have inner : place ≠ [] := ne_nil_of_lookup file
    rw [lookup_without tree places inner] at found
    split at found
    · cases found
    · exact found

theorem HasDistinctPlaces.without (distinct : tree.HasDistinctPlaces) (places : List Place) :
    (tree.without places).HasDistinctPlaces := by
  unfold HasDistinctPlaces FileTree.without at *
  exact ((List.filter_sublist.map _).cons_cons _).nodup distinct

namespace Within

/-! ## Reading -/

theorem locate_iff (h : Within fewer tree) :
    fewer.locate path = .ok place ↔ tree.locate path = .ok place :=
  ⟨locate_of_directories h.working.symm h.directory.1,
    locate_of_directories h.working h.directory.2⟩

theorem entryAt (h : Within fewer tree) {entry : FileEntry}
    (found : fewer.entryAt path = .ok entry) : tree.entryAt path = .ok entry := by
  obtain ⟨place, leads, there⟩ := entryAt_eq_ok.1 found
  refine entryAt_eq_ok.2 ⟨place, h.locate_iff.1 leads, ?_⟩
  cases entry with
  | directory => exact h.directory.1 there
  | file content => exact h.file there

theorem readText (h : Within fewer tree) {text : String}
    (found : fewer.readText path = .ok text) : tree.readText path = .ok text := by
  unfold FileTree.readText at found ⊢
  obtain ⟨entry, there, content⟩ := bind_eq_ok.1 found
  exact bind_eq_ok.2 ⟨entry, h.entryAt there, content⟩

/-! ## Writing -/

theorem insert (h : Within fewer tree) (inner : place ≠ []) (entry : FileEntry) :
    Within (fewer.insert place entry) (tree.insert place entry) where
  working := h.working
  directory {other} := by
    rw [lookup_insert fewer inner, lookup_insert tree inner]
    split
    · exact Iff.rfl
    · exact h.directory
  file {other _} := by
    rw [lookup_insert fewer inner, lookup_insert tree inner]
    split
    · exact id
    · exact h.file

/-- What can be entered can be entered where there are fewer files. -/
theorem enter (h : Within fewer tree) (done : tree.enter place part = .ok (after, next)) :
    ∃ after', fewer.enter place part = .ok (after', next) ∧ Within after' after := by
  unfold FileTree.enter at done ⊢
  obtain ⟨reached, taken, done⟩ := bind_eq_ok.1 done
  have here := directory_of_step taken
  have taken' := (step_of_directory here (h.directory.2 here)).trans taken
  rw [taken']
  simp only [bind, Except.bind]
  split at done
  · next directory =>
    cases done
    rw [h.directory.2 directory]
    exact ⟨fewer, rfl, h⟩
  · cases done
  · next none =>
    cases done
    have free : tree.lookup next ≠ some .directory := by simp [none]
    rw [h.vacant none]
    exact ⟨_, rfl, h.insert (ne_nil_of_lookup free) .directory⟩

theorem enterAll (h : Within fewer tree) {parts : List (List Char)}
    (done : tree.enterAll place parts = (after, true)) :
    ∃ after', fewer.enterAll place parts = (after', true) ∧ Within after' after := by
  induction parts generalizing fewer tree place with
  | nil =>
    cases done
    exact ⟨fewer, rfl, h⟩
  | cons part parts ih =>
    unfold FileTree.enterAll at done ⊢
    split at done
    · next entered =>
      obtain ⟨now, entered', within⟩ := h.enter entered
      rw [entered']
      exact ih within done
    · cases done

theorem makeDirectory (h : Within fewer tree) (done : tree.makeDirectory path = (after, true)) :
    ∃ after', fewer.makeDirectory path = (after', true) ∧ Within after' after := by
  have start : fewer.startOf path = tree.startOf path := by
    unfold startOf
    rw [h.working]
  unfold FileTree.makeDirectory at done ⊢
  split at done
  · next empty =>
    cases done
    rw [if_pos empty]
    exact ⟨fewer, rfl, h⟩
  · next named =>
    rw [if_neg named]
    split at done
    · cases done
    · rw [start]
      exact h.enterAll done

theorem makeParent (h : Within fewer tree) (done : tree.makeParent path = (after, true)) :
    ∃ after', fewer.makeParent path = (after', true) ∧ Within after' after := by
  unfold FileTree.makeParent at done ⊢
  split at done
  · exact h.makeDirectory done
  · cases done
    exact ⟨fewer, rfl, h⟩

/-- What can be written can be written where there are fewer files. -/
theorem write (h : Within fewer tree) (done : tree.write path content = (after, true)) :
    ∃ after', fewer.write path content = (after', true) ∧ Within after' after := by
  cases exit_of_write done with
  | @written made place parent leads free =>
    obtain ⟨made', parent', within⟩ := h.makeParent parent
    have free' : made'.lookup place ≠ some .directory := fun found => free (within.directory.1 found)
    refine ⟨made'.insert place (.file content), ?_, within.insert (ne_nil_of_lookup free) _⟩
    rw [write_eq, parent', if_pos rfl, writeFile?_eq_some (within.locate_iff.2 leads) free']

end Within

end Bindery.FileTree
