import Mathlib.Data.List.Basic
import Mathlib.Data.List.Induction
import Mathlib.Data.List.Nodup

/-!
# Lists without repeats

`List.eraseDups` keeps the first of equal elements. Here it is described from the end of a list,
where a reader adds what it meets. A list of keys and values without repeated keys is known by what
is found under each key.
-/

namespace Bindery
set_option autoImplicit false

theorem nodup_snoc {α : Type} {xs : List α} {x : α} (distinct : xs.Nodup) (fresh : x ∉ xs) :
    (xs ++ [x]).Nodup := by
  rw [← List.concat_eq_append]
  exact distinct.concat fresh

variable {α : Type} [BEq α] [LawfulBEq α]

theorem eraseDups_snoc_of_mem {xs : List α} {x : α} (h : x ∈ xs) :
    (xs ++ [x]).eraseDups = xs.eraseDups := by
  rw [List.eraseDups_append]
  simp [List.removeAll, h]

theorem eraseDups_snoc_of_not_mem {xs : List α} {x : α} (h : x ∉ xs) :
    (xs ++ [x]).eraseDups = xs.eraseDups ++ [x] := by
  rw [List.eraseDups_append]
  simp [List.removeAll, h, List.eraseDups_cons]

theorem nodup_eraseDups (xs : List α) : xs.eraseDups.Nodup := by
  induction xs using List.reverseRecOn with
  | nil => exact List.nodup_nil
  | append_singleton xs x ih =>
    by_cases h : x ∈ xs
    · rw [eraseDups_snoc_of_mem h]
      exact ih
    · rw [eraseDups_snoc_of_not_mem h]
      exact nodup_snoc ih fun mem => h (List.mem_eraseDups.1 mem)

/-- A part of a list without repeats is known by its members. -/
theorem filter_mem_of_sublist {xs ys : List α} (part : xs.Sublist ys) (distinct : ys.Nodup) :
    ys.filter (xs.contains ·) = xs := by
  induction part with
  | slnil => rfl
  | @cons xs ys y part ih =>
    obtain ⟨fresh, distinct⟩ := List.nodup_cons.1 distinct
    have absent : y ∉ xs := fun mem => fresh (part.subset mem)
    rw [List.filter_cons_of_neg (by simpa using absent), ih distinct]
  | @cons_cons xs ys y _ ih =>
    obtain ⟨fresh, distinct⟩ := List.nodup_cons.1 distinct
    have others : ys.filter ((y :: xs).contains ·) = ys.filter (xs.contains ·) := by
      refine List.filter_congr fun other mem => ?_
      have differs : other ≠ y := fun same => fresh (same ▸ mem)
      simp [differs]
    rw [List.filter_cons_of_pos (by simp), others, ih distinct]

/-! ## Keys -/

section Keys

variable {β : Type} {entries others : List (α × β)} {key : α} {value : β}

theorem mem_of_lookup (found : entries.lookup key = some value) : (key, value) ∈ entries := by
  obtain ⟨before, after, equal, -⟩ := List.lookup_eq_some_iff.1 found
  rw [equal]
  exact List.mem_append_right before List.mem_cons_self

theorem mem_keys_of_lookup (found : entries.lookup key = some value) :
    key ∈ entries.map (·.1) :=
  List.mem_map_of_mem (mem_of_lookup found)

theorem lookup_of_not_mem_keys (absent : key ∉ entries.map (·.1)) : entries.lookup key = none := by
  cases found : entries.lookup key with
  | none => rfl
  | some value => exact absurd (mem_keys_of_lookup found) absent

theorem lookup_of_mem (distinct : (entries.map (·.1)).Nodup) (mem : (key, value) ∈ entries) :
    entries.lookup key = some value := by
  induction entries with
  | nil => cases mem
  | cons entry rest ih =>
    rw [List.map_cons, List.nodup_cons] at distinct
    rcases List.mem_cons.1 mem with rfl | mem
    · exact List.lookup_cons_self
    · have other : (key == entry.1) = false := by
        rw [beq_eq_false_iff_ne]
        rintro rfl
        exact distinct.1 (List.mem_map.2 ⟨_, mem, rfl⟩)
      rw [List.lookup_cons, other]
      exact ih distinct.2 mem

/-- What is found under a key does not depend on the order of the list. -/
theorem lookup_of_perm (same : others.Perm entries) (distinct : (entries.map (·.1)).Nodup) :
    others.lookup key = entries.lookup key := by
  have distinct' : (others.map (·.1)).Nodup := (same.map (·.1)).nodup_iff.2 distinct
  apply Option.ext
  intro value
  constructor
  · intro found
    exact lookup_of_mem distinct (same.mem_iff.1 (mem_of_lookup found))
  · intro found
    exact lookup_of_mem distinct' (same.mem_iff.2 (mem_of_lookup found))

/-- What is found under each key, and the order of the keys, make the list. -/
theorem eq_of_lookup (distinct : (entries.map (·.1)).Nodup)
    (keys : others.map (·.1) = entries.map (·.1))
    (same : ∀ key, others.lookup key = entries.lookup key) : others = entries := by
  refine List.ext_getElem ?_ fun i here there => ?_
  · simpa using congrArg List.length keys
  · have key : others[i].1 = entries[i].1 := by
      have equal := List.getElem_of_eq keys (i := i) (by rwa [List.length_map])
      rwa [List.getElem_map, List.getElem_map] at equal
    have found : others.lookup others[i].1 = some others[i].2 :=
      lookup_of_mem (keys ▸ distinct) (List.getElem_mem here)
    have found' : entries.lookup entries[i].1 = some entries[i].2 :=
      lookup_of_mem distinct (List.getElem_mem there)
    rw [same, key, found', Option.some.injEq] at found
    exact Prod.ext key found.symm

end Keys

end Bindery
