import Bindery.Proofs.Code.Escaping
import Bindery.Proofs.Manual.Marks
import Mathlib.Data.List.Infix

/-!
# Prose that is shown as it is

The description of a page loses its backslashes, the ends of comments in it and the blank lines around
it. One that has none of these is shown line by line.
-/

namespace Bindery.Manual
set_option autoImplicit false

/-- A line of prose that is shown as it is. -/
structure ProseLine (line : List Char) : Prop where
  noBackslash : '\\' ∉ line
  noCommentEnd : ¬['*', '/'] <:+: line
  noReturn : line.getLast? ≠ some '\r'
  markFree : MarkFree line

instance (line : List Char) : Decidable (ProseLine line) :=
  decidable_of_iff ('\\' ∉ line ∧ ¬['*', '/'] <:+: line ∧ line.getLast? ≠ some '\r' ∧
      MarkFree line)
    ⟨fun ⟨noBackslash, noCommentEnd, noReturn, markFree⟩ =>
        ⟨noBackslash, noCommentEnd, noReturn, markFree⟩,
      fun h => ⟨h.noBackslash, h.noCommentEnd, h.noReturn, h.markFree⟩⟩

/-- Lines of prose that are shown as they are, with no blank line at either end. -/
structure Prose (lines : List (List Char)) : Prop where
  each : ∀ line ∈ lines, ProseLine line
  first : ∀ line ∈ lines.head?, Text.allBlank line = false
  last : ∀ line ∈ lines.getLast?, Text.allBlank line = false

instance (lines : List (List Char)) : Decidable (Prose lines) :=
  decidable_of_iff ((∀ line ∈ lines, ProseLine line) ∧
      (∀ line ∈ lines.head?, Text.allBlank line = false) ∧
      ∀ line ∈ lines.getLast?, Text.allBlank line = false)
    ⟨fun ⟨each, first, last⟩ => ⟨each, first, last⟩, fun h => ⟨h.each, h.first, h.last⟩⟩

theorem ProseLine.proseLine {line : List Char} (h : ProseLine line) :
    Page.proseLine (String.ofList line) = String.ofList line := by
  have kept : line.filter (· != '\\') = line := by
    rw [List.filter_eq_self]
    intro c mem
    have other : c ≠ '\\' := fun same => h.noBackslash (same ▸ mem)
    simpa using other
  rw [Page.proseLine, String.toList_ofList, kept, Code.escapeCommentEnd_eq_self h.noCommentEnd]

theorem dropWhile_isBlankText {lines : List String}
    (first : ∀ line ∈ lines.head?, Text.isBlankText line = false) :
    lines.dropWhile Text.isBlankText = lines := by
  cases lines with
  | nil => rfl
  | cons line lines =>
    rw [List.dropWhile_cons_of_neg]
    rw [first line rfl]
    exact Bool.false_ne_true

/-- The prose of a description is its lines. -/
theorem Prose.trimLines {lines : List (List Char)} (h : Prose lines) :
    Page.trimLines (("" :: lines.map String.ofList).map Page.proseLine) =
      lines.map String.ofList := by
  have shown : (lines.map String.ofList).map Page.proseLine = lines.map String.ofList := by
    rw [List.map_map]
    exact List.map_congr_left fun line mem => (h.each line mem).proseLine
  have blank : Page.proseLine "" = "" := by decide
  have top : ∀ line ∈ (lines.map String.ofList).head?, Text.isBlankText line = false := by
    intro line mem
    rw [List.head?_map] at mem
    obtain ⟨l, there, rfl⟩ := Option.map_eq_some_iff.1 mem
    rw [Text.isBlankText, String.toList_ofList]
    exact h.first l there
  have bottom : ∀ line ∈ (lines.map String.ofList).reverse.head?,
      Text.isBlankText line = false := by
    intro line mem
    rw [List.head?_reverse, List.getLast?_map] at mem
    obtain ⟨l, there, rfl⟩ := Option.map_eq_some_iff.1 mem
    rw [Text.isBlankText, String.toList_ofList]
    exact h.last l there
  rw [List.map_cons, shown, blank, Page.trimLines, List.dropWhile_cons_of_pos (by decide),
    dropWhile_isBlankText top, dropWhile_isBlankText bottom, List.reverse_reverse]

end Bindery.Manual
