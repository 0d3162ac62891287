import Bindery.Schema.Normalize

/-!
# Tables a project can have

A table is reached from the built-in one by adding tags. No generic tag ever enters such a table, so
what a tag is mapped to is never mapped again.
-/

namespace Bindery.Schema
set_option autoImplicit false

namespace TagTable

/-- The tables that adding tags to the built-in one gives. -/
inductive Reachable : TagTable → Prop
  | builtin : Reachable builtin
  | add {table table' : TagTable} {tag : String} {primitive : Primitive} (h : Reachable table)
      (added : table.add tag primitive = .ok table') : Reachable table'

variable {table table' : TagTable} {tag : String} {primitive : Primitive}

/-- Adding a tag that is no generic one changes nothing, or puts it at the end. -/
theorem add_cases (added : table.add tag primitive = .ok table') :
    tag ∉ genericTags ∧
      ((∃ present, table.lookup tag = some present ∧ present.primitive = primitive ∧
          table' = table) ∨
        (table.lookup tag = none ∧ table' = ⟨table.entries ++ [(tag, ⟨primitive, false⟩)]⟩)) := by
  unfold add at added
  split at added
  · cases added
  · next fresh =>
    refine ⟨fresh, ?_⟩
    split at added
    · next present found =>
      split at added
      · next same =>
        cases added
        exact Or.inl ⟨present, found, same, rfl⟩
      · cases added
    · next unknown =>
      cases added
      exact Or.inr ⟨unknown, rfl⟩

/-- **No generic tag is ever mapped.** -/
theorem Reachable.lookup_generic (h : Reachable table) {generic : String}
    (mem : generic ∈ genericTags) : table.lookup generic = none := by
  induction h with
  | builtin =>
    revert generic
    decide
  | @add before after tag _ _ added ih =>
    obtain ⟨fresh, ⟨_, _, _, same⟩ | ⟨_, same⟩⟩ := add_cases added
    · rw [same]
      exact ih
    · have other : generic ≠ tag := fun equal => fresh (equal ▸ mem)
      subst same
      unfold lookup at ih ⊢
      rw [List.lookup_append, ih]
      simp [List.lookup_cons, beq_eq_false_iff_ne.2 other]

end TagTable

theorem Primitive.tag_generic (primitive : Primitive) : primitive.tag ∈ genericTags := by
  cases primitive <;> decide

/-- A tag that was mapped is not mapped again. -/
theorem lookup_genericTag {table : TagTable} (h : table.Reachable) (tag : String) :
    table.lookup (genericTag table tag) = none := by
  unfold genericTag
  cases found : table.lookup tag with
  | none => exact found
  | some mapping => exact h.lookup_generic mapping.primitive.tag_generic

theorem genericTag_eq_self {table : TagTable} {tag : String} (unknown : table.lookup tag = none) :
    genericTag table tag = tag := by
  unfold genericTag
  rw [unknown]

end Bindery.Schema
