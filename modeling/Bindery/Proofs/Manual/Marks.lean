import Bindery.Manual.Page
import Bindery.Proofs.Synopsis.Writing
import Bindery.Proofs.Text.Search

/-!
# Texts without the marks of a page

Where the description of a page opens and ends is told by two marks. A written synopsis holds none of
them if its names hold none: no mark reaches over a character that it does not hold.
-/

namespace Bindery.Manual
set_option autoImplicit false

open Synopsis (escaped writtenName writtenRequired writtenOptional)

/-! ## Marks -/

/-- The marks that are looked for in a page. -/
def pageMarks : List (List Char) :=
  [descriptionMark.toList, returnValueMark.toList]

/-- Whether a text holds no mark of a page. -/
def MarkFree (cs : List Char) : Prop :=
  ∀ mark ∈ pageMarks, ¬mark <:+: cs

instance (cs : List Char) : Decidable (MarkFree cs) :=
  inferInstanceAs (Decidable (∀ mark ∈ pageMarks, ¬mark <:+: cs))

/-- Characters that no mark holds. -/
def separators : List Char :=
  ['*', '\\', '[', ']', '-', 'd']

theorem separator_not_mem : ∀ mark ∈ pageMarks, ∀ c ∈ separators, c ∉ mark := by
  have apart : ∀ mark ∈ pageMarks, (mark.all fun c => !separators.contains c) = true := by
    decide +kernel
  intro mark mem c separator inside
  have other := List.all_eq_true.1 (apart mark mem) c inside
  rw [List.contains_iff_mem.2 separator] at other
  cases other

theorem mark_head : ∀ mark ∈ pageMarks, mark.head? ≠ some ' ' := by
  decide +kernel

theorem mark_getLast : ∀ mark ∈ pageMarks, mark.getLast? ≠ some ' ' := by
  decide +kernel

namespace MarkFree

variable {xs ys cs : List Char} {c : Char}

theorem nil : MarkFree [] := by
  decide +kernel

/-- No mark reaches over a separator. -/
theorem append_cons (first : MarkFree xs) (last : MarkFree ys) (apart : c ∈ separators) :
    MarkFree (xs ++ c :: ys) := by
  intro mark mem inside
  rcases Text.infix_of_append_cons (separator_not_mem mark mem c apart) inside with left | right
  · exact first mark mem left
  · exact last mark mem right

theorem cons (h : MarkFree cs) (apart : c ∈ separators) : MarkFree (c :: cs) :=
  append_cons nil h apart

theorem concat (h : MarkFree cs) (apart : c ∈ separators) : MarkFree (cs ++ [c]) :=
  append_cons h nil apart

/-- No mark starts with a space. -/
theorem space_cons (h : MarkFree cs) : MarkFree (' ' :: cs) := fun mark mem inside =>
  h mark mem (Text.infix_of_cons (mark_head mark mem) inside)

/-- No mark ends with a space. -/
theorem concat_space (h : MarkFree cs) : MarkFree (cs ++ [' ']) := fun mark mem inside =>
  h mark mem (Text.infix_of_concat (mark_getLast mark mem) inside)

theorem of_infix (h : MarkFree cs) (inside : xs <:+: cs) : MarkFree xs := fun mark mem mark_in =>
  h mark mem (mark_in.trans inside)

theorem prefix_of_escaped {needle name : List Char} (apart : '\\' ∉ needle)
    (start : needle <+: escaped name) : needle <+: name := by
  induction name generalizing needle with
  | nil => exact start
  | cons c name ih =>
    cases needle with
    | nil => exact List.nil_prefix
    | cons n needle =>
      rw [List.mem_cons, not_or] at apart
      unfold escaped at start ih
      rw [List.flatMap_cons] at start
      by_cases backslash : c = '\\'
      · rw [if_pos backslash, List.cons_append, List.cons_prefix_cons] at start
        exact absurd start.1.symm apart.1
      · rw [if_neg backslash, List.singleton_append, List.cons_prefix_cons] at start
        exact List.cons_prefix_cons.2 ⟨start.1, ih apart.2 start.2⟩

/-- Doubling backslashes makes no mark. -/
theorem escape {name : List Char} (h : MarkFree name) : MarkFree (escaped name) := by
  induction name with
  | nil => exact nil
  | cons c name ih =>
    have behind := ih (h.of_infix (List.infix_cons List.infix_rfl))
    unfold escaped at behind ⊢
    rw [List.flatMap_cons]
    by_cases backslash : c = '\\'
    · rw [if_pos backslash]
      exact (behind.cons (by decide)).cons (by decide)
    · rw [if_neg backslash, List.singleton_append]
      intro mark mem inside
      rcases List.infix_cons_iff.1 inside with start | later
      · have whole : mark <+: escaped (c :: name) := by
          unfold escaped
          rwa [List.flatMap_cons, if_neg backslash, List.singleton_append]
        have apart : '\\' ∉ mark := separator_not_mem mark mem '\\' (by decide)
        exact h mark mem (prefix_of_escaped apart whole).isInfix
      · exact behind mark mem later

end MarkFree

/-! ## Lines of a synopsis -/

/-- A line that may stand in a synopsis: it starts and ends with a mark of the synopsis, and holds
no mark of the page. -/
structure SynopsisLine (line : List Char) : Prop where
  first : ∃ c rest, line = c :: rest ∧ c ∈ ['*', '\\']
  last : ∃ front c, line = front ++ [c] ∧ c ∈ ['*', ']']
  markFree : MarkFree line

namespace SynopsisLine

variable {item line : List Char}

/-- An item in front of a line, with a space between them. -/
theorem join (h : SynopsisLine item) (next : SynopsisLine line) :
    SynopsisLine (item ++ ' ' :: line) := by
  obtain ⟨c, rest, rfl, starts⟩ := h.first
  obtain ⟨front, d, same, ends⟩ := h.last
  obtain ⟨e, tail, rfl, begins⟩ := next.first
  obtain ⟨body, f, ending, closes⟩ := next.last
  refine ⟨⟨c, _, rfl, starts⟩, ⟨c :: rest ++ (' ' :: body), f, ?_, closes⟩, ?_⟩
  · rw [ending]
    simp
  · have itemFree := h.markFree
    have tailFree : MarkFree tail := next.markFree.of_infix (List.infix_cons List.infix_rfl)
    have second : MarkFree (' ' :: e :: tail) :=
      (tailFree.cons (by rcases List.mem_pair.1 begins with rfl | rfl <;> decide)).space_cons
    rw [same] at itemFree ⊢
    have frontFree : MarkFree front := itemFree.of_infix (List.prefix_append _ _).isInfix
    rw [List.append_assoc, List.singleton_append]
    exact frontFree.append_cons second
      (by rcases List.mem_pair.1 ends with rfl | rfl <;> decide)

theorem name {command : String} (h : MarkFree command.toList) :
    SynopsisLine (writtenName command) := by
  refine ⟨⟨'*', _, rfl, by decide⟩, ⟨'*' :: '*' :: (escaped command.toList ++ ['*']), '*', ?_,
    by decide⟩, ?_⟩
  · simp [writtenName]
  · have inner := (h.escape.append_cons (MarkFree.nil.cons (c := '*') (by decide)) (c := '*')
      (by decide))
    exact (inner.cons (by decide)).cons (by decide)

theorem required {param : String} (h : MarkFree param.toList) :
    SynopsisLine (writtenRequired param) := by
  refine ⟨⟨'*', _, rfl, by decide⟩, ⟨'*' :: escaped param.toList, '*', rfl, by decide⟩, ?_⟩
  exact (h.escape.concat (by decide)).cons (by decide)

theorem optional {param : String} (h : MarkFree param.toList) :
    SynopsisLine (writtenOptional param) := by
  refine ⟨⟨'\\', _, rfl, by decide⟩,
    ⟨'\\' :: '[' :: '*' :: (escaped param.toList ++ ['*', '\\']), ']', ?_, by decide⟩, ?_⟩
  · simp [writtenOptional]
  · have closing : MarkFree ['\\', ']'] := (MarkFree.nil.cons (by decide)).cons (by decide)
    have inner := h.escape.append_cons closing (c := '*') (by decide)
    exact ((inner.cons (by decide)).cons (by decide)).cons (by decide)

end SynopsisLine

end Bindery.Manual
