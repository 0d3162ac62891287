import Bindery.Text.Search
import Mathlib.Data.List.Basic

/-!
# Where a text occurs

A text that occurs in another is one of its infixes. A character that it does not hold separates
its occurrences.
-/

namespace Bindery.Text
set_option autoImplicit false

variable {needle xs ys cs : List Char} {c : Char}

theorem find?_isSome_iff : (find? needle cs).isSome = true ↔ needle <:+: cs := by
  induction cs with
  | nil =>
    unfold find?
    cases needle <;> simp
  | cons c cs ih =>
    unfold find?
    rw [List.infix_cons_iff, ← ih]
    split
    · next start => simp [List.isPrefixOf_iff_prefix.1 start]
    · next start =>
      have other : ¬needle <+: c :: cs := fun h => start (List.isPrefixOf_iff_prefix.2 h)
      simp [other]

theorem occursIn_iff_infix : occursIn needle cs = true ↔ needle <:+: cs :=
  find?_isSome_iff

theorem prefix_of_append_cons (apart : c ∉ needle) (h : needle <+: xs ++ c :: ys) :
    needle <+: xs := by
  induction xs generalizing needle with
  | nil =>
    rcases List.prefix_cons_iff.1 h with rfl | ⟨rest, rfl, -⟩
    · exact List.nil_prefix
    · exact absurd List.mem_cons_self apart
  | cons x xs ih =>
    rcases List.prefix_cons_iff.1 h with rfl | ⟨rest, rfl, start⟩
    · exact List.nil_prefix
    · have among : c ∉ rest := fun mem => apart (List.mem_cons_of_mem _ mem)
      exact List.prefix_cons_iff.2 (Or.inr ⟨rest, rfl, ih among start⟩)

/-- An occurrence is on one side of a character that is not in it. -/
theorem infix_of_append_cons (apart : c ∉ needle) (h : needle <:+: xs ++ c :: ys) :
    needle <:+: xs ∨ needle <:+: ys := by
  induction xs with
  | nil =>
    rcases List.infix_cons_iff.1 h with start | later
    · have nothing : needle <+: [] := prefix_of_append_cons apart start
      exact Or.inl nothing.isInfix
    · exact Or.inr later
  | cons x xs ih =>
    rcases List.infix_cons_iff.1 h with start | later
    · have front : needle <+: x :: xs := prefix_of_append_cons apart start
      exact Or.inl front.isInfix
    · exact (ih later).imp_left fun inside => List.infix_cons inside

/-- An occurrence does not begin with the character in front of a text if it starts differently. -/
theorem infix_of_cons (other : needle.head? ≠ some c) (h : needle <:+: c :: cs) :
    needle <:+: cs := by
  rcases List.infix_cons_iff.1 h with start | later
  · rcases List.prefix_cons_iff.1 start with rfl | ⟨rest, rfl, -⟩
    · exact List.nil_infix
    · exact absurd rfl other
  · exact later

/-- An occurrence does not end with the character behind a text if it ends differently. -/
theorem infix_of_concat (other : needle.getLast? ≠ some c) (h : needle <:+: cs ++ [c]) :
    needle <:+: cs := by
  rcases List.infix_concat_iff.1 h with ending | earlier
  · rcases List.suffix_concat_iff.1 ending with rfl | ⟨front, rfl, -⟩
    · exact List.nil_infix
    · exact absurd List.getLast?_concat other
  · exact earlier

/-! ## Without prefix and suffix -/

theorem suffix_afterStart? (start cs : List Char) : (afterStart? start cs).getD cs <:+ cs := by
  unfold afterStart?
  split
  · exact List.drop_suffix _ _
  · exact List.suffix_refl _

theorem prefix_beforeEnd? (ending cs : List Char) : (beforeEnd? ending cs).getD cs <+: cs := by
  unfold beforeEnd?
  split
  · exact List.take_prefix _ _
  · exact List.prefix_refl _

end Bindery.Text
