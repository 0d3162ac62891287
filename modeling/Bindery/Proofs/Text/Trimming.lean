import Bindery.Text.Blank
import Mathlib.Data.List.DropRight

/-!
# Texts without the blanks around them

What is left of a text is a part of it that neither starts nor ends with a blank, and nothing is left
only of blanks.
-/

namespace Bindery.Text
set_option autoImplicit false

variable {cs : List Char} {c : Char}

theorem suffix_trimStart (cs : List Char) : trimStart cs <:+ cs :=
  List.dropWhile_suffix isBlank

theorem prefix_trimEnd (cs : List Char) : trimEnd cs <+: cs := by
  rw [trimEnd, ← List.reverse_suffix, List.reverse_reverse]
  exact suffix_trimStart cs.reverse

theorem infix_trim (cs : List Char) : trim cs <:+: cs :=
  (prefix_trimEnd _).isInfix.trans (suffix_trimStart cs).isInfix

theorem isBlank_of_head?_trimStart (first : (trimStart cs).head? = some c) : isBlank c = false := by
  have kept := List.head?_dropWhile_not isBlank cs
  rw [← trimStart, first] at kept
  simpa using kept

theorem isBlank_of_getLast?_trimEnd (last : (trimEnd cs).getLast? = some c) : isBlank c = false := by
  rw [trimEnd, List.getLast?_reverse] at last
  exact isBlank_of_head?_trimStart last

theorem trimEnd_eq_nil_iff : trimEnd cs = [] ↔ allBlank cs = true := by
  rw [trimEnd, List.reverse_eq_nil_iff, trimStart_eq_nil_iff, allBlank, allBlank, List.all_reverse]

theorem isBlank_of_head?_trim (first : (trim cs).head? = some c) : isBlank c = false := by
  obtain ⟨rest, whole⟩ := prefix_trimEnd (trimStart cs)
  refine @isBlank_of_head?_trimStart cs c ?_
  rw [← whole, List.head?_append, ← trim, first]
  rfl

theorem trim_eq_nil_iff : trim cs = [] ↔ allBlank cs = true := by
  have again : trimStart (trimStart cs) = trimStart cs := List.dropWhile_idempotent isBlank cs
  rw [trim, trimEnd_eq_nil_iff, ← trimStart_eq_nil_iff, again, trimStart_eq_nil_iff]

end Bindery.Text
