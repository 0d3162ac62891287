import Bindery.FileTree
import Bindery.Proofs.Attempts
import Bindery.Proofs.Distinct

/-!
# The places of a tree

A tree is known by what is at each place and by the order of its places. Putting an entry at a place
adds the place behind the others, unless it is one of them.
-/

namespace Bindery.FileTree
set_option autoImplicit false

variable {tree after : FileTree} {place : Place} {path : Path}

/-- No place has two entries, and the root needs none. -/
def HasDistinctPlaces (tree : FileTree) : Prop :=
  ([] :: tree.entries.map (·.1)).Nodup

theorem HasDistinctPlaces.nodup (distinct : tree.HasDistinctPlaces) :
    (tree.entries.map (·.1)).Nodup :=
  (List.nodup_cons.1 distinct).2

theorem mem_entries_of_lookup {entry : FileEntry} (inner : place ≠ [])
    (found : tree.lookup place = some entry) : (place, entry) ∈ tree.entries := by
  rw [lookup, if_neg inner] at found
  exact mem_of_lookup found

theorem ne_nil_of_lookup (free : tree.lookup place ≠ some .directory) : place ≠ [] := by
  rintro rfl
  exact free rfl

/-- Putting an entry adds its place behind the others, unless it is one of them. -/
theorem places_setEntry (place : Place) (entry : FileEntry) (entries : List (Place × FileEntry)) :
    (setEntry place entry entries).map (·.1) =
      if place ∈ entries.map (·.1) then entries.map (·.1) else entries.map (·.1) ++ [place] := by
  induction entries with
  | nil => simp [setEntry]
  | cons e rest ih =>
    obtain ⟨p, old⟩ := e
    by_cases here : p = place
    · simp [setEntry, here]
    · simp only [setEntry, here, if_false, List.map_cons, ih, List.mem_cons, Ne.symm here, false_or]
      split <;> simp

theorem places_insert {entry old : FileEntry} (inner : place ≠ [])
    (found : tree.lookup place = some old) :
    (tree.insert place entry).entries.map (·.1) = tree.entries.map (·.1) := by
  rw [insert, places_setEntry, if_pos]
  exact List.mem_map_of_mem (mem_entries_of_lookup inner found)

theorem HasDistinctPlaces.insert (distinct : tree.HasDistinctPlaces) (inner : place ≠ [])
    (entry : FileEntry) : (tree.insert place entry).HasDistinctPlaces := by
  unfold HasDistinctPlaces FileTree.insert
  rw [places_setEntry]
  split
  · exact distinct
  · next fresh =>
    rw [← List.cons_append]
    exact nodup_snoc distinct (List.not_mem_cons_of_ne_of_not_mem inner fresh)

/-- What is at each place, and the order of the places, make the tree. -/
theorem eq_of_lookup (distinct : tree.HasDistinctPlaces) (working : after.working = tree.working)
    (places : after.entries.map (·.1) = tree.entries.map (·.1))
    (same : ∀ place, after.lookup place = tree.lookup place) : after = tree := by
  have entries : after.entries = tree.entries := by
    refine Bindery.eq_of_lookup distinct.nodup places fun place => ?_
    by_cases root : place = []
    · have none := (List.nodup_cons.1 distinct).1
      rw [root, lookup_of_not_mem_keys none, lookup_of_not_mem_keys (places ▸ none)]
    · simpa only [lookup, if_neg root] using same place
  cases after
  cases tree
  cases working
  cases entries
  rfl

theorem entryAt_eq_ok {entry : FileEntry} :
    tree.entryAt path = .ok entry ↔
      ∃ place, tree.locate path = .ok place ∧ tree.lookup place = some entry := by
  unfold entryAt
  rw [bind_eq_ok]
  refine exists_congr fun place => and_congr_right fun _ => ?_
  cases tree.lookup place with
  | none => simp
  | some found => simp

end Bindery.FileTree
