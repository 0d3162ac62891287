import Bindery.Text.Lines
import Mathlib.Data.List.Basic

/-!
# Lines of texts put together

A newline between two texts keeps their lines apart. Without one, the last line of the first and
the first line of the second are one line. Lines with a newline behind each are read back as they are.
-/

namespace Bindery.Text
set_option autoImplicit false

variable {xs ys : List Char}

theorem splitNewlines_of_not_mem (oneLine : '\n' ∉ xs) : splitNewlines xs = [xs] := by
  induction xs with
  | nil => rfl
  | cons c xs ih =>
    rw [List.mem_cons, not_or] at oneLine
    rw [splitNewlines, if_neg (Ne.symm oneLine.1), ih oneLine.2]

theorem splitNewlines_append_newline (xs ys : List Char) :
    splitNewlines (xs ++ '\n' :: ys) = splitNewlines xs ++ splitNewlines ys := by
  induction xs with
  | nil => simp [splitNewlines]
  | cons c xs ih =>
    rw [List.cons_append, splitNewlines, splitNewlines, ih]
    split
    · rfl
    · cases lines : splitNewlines xs with
      | nil => exact absurd lines (splitNewlines_ne_nil xs)
      | cons line lines => rfl

/-- A text without newlines stands in front of the first line of what follows. -/
theorem splitNewlines_append (oneLine : '\n' ∉ xs) (ys : List Char) :
    ∃ line lines, splitNewlines ys = line :: lines ∧
      splitNewlines (xs ++ ys) = (xs ++ line) :: lines := by
  induction xs with
  | nil =>
    obtain ⟨line, lines, split⟩ := List.exists_cons_of_ne_nil (splitNewlines_ne_nil ys)
    exact ⟨line, lines, split, split⟩
  | cons c xs ih =>
    rw [List.mem_cons, not_or] at oneLine
    obtain ⟨line, lines, split, joined⟩ := ih oneLine.2
    refine ⟨line, lines, split, ?_⟩
    rw [List.cons_append, splitNewlines, if_neg (Ne.symm oneLine.1), joined]
    rfl

/-- Texts put together with newlines have the lines of each. -/
theorem splitNewlines_intercalate {parts : List (List Char)} (some : parts ≠ []) :
    splitNewlines (['\n'].intercalate parts) = parts.flatMap splitNewlines := by
  induction parts with
  | nil => exact absurd rfl some
  | cons part parts ih =>
    cases parts with
    | nil => simp
    | cons next parts =>
      rw [List.intercalate_cons_cons, List.append_assoc, List.singleton_append,
        splitNewlines_append_newline, ih (List.cons_ne_nil _ _)]
      rfl

theorem dropFinal_of_getLast?_ne {c : Char} (other : xs.getLast? ≠ some c) : dropFinal c xs = xs :=
  if_neg other

/-! ## Whole lines -/

/-- Lines, each with a newline behind it. -/
def ended (ls : List String) : String :=
  String.join (ls.map (· ++ "\n"))

/-- A text that is read back as one line: it holds no newline, and no carriage return would belong
to its line end. -/
def IsLine (s : String) : Prop :=
  '\n' ∉ s.toList ∧ s.toList.getLast? ≠ some '\r'

instance (s : String) : Decidable (IsLine s) :=
  inferInstanceAs (Decidable (_ ∧ _))

/-- A text without newlines in front of a line is part of the line. -/
theorem IsLine.prepend {front line : String} (oneLine : '\n' ∉ front.toList) (whole : IsLine line)
    (some : line ≠ "") : IsLine (front ++ line) := by
  unfold IsLine
  rw [String.toList_append, List.mem_append, not_or,
    List.getLast?_append_of_ne_nil _ (by simpa using some)]
  exact ⟨⟨oneLine, whole.1⟩, whole.2⟩

@[simp] theorem ended_nil : ended [] = "" := rfl

@[simp] theorem ended_cons (l : String) (ls : List String) :
    ended (l :: ls) = l ++ "\n" ++ ended ls := by
  rw [ended, List.map_cons, String.join_cons, ended]

theorem ended_append (ls ls' : List String) : ended (ls ++ ls') = ended ls ++ ended ls' := by
  rw [ended, List.map_append, String.join_append, ended, ended]

theorem newlinePieces_append_newline (xs ys : List Char) :
    newlinePieces (xs ++ '\n' :: ys) = newlinePieces (xs ++ ['\n']) ++ newlinePieces ys := by
  induction xs with
  | nil => rfl
  | cons c xs ih =>
    rw [List.cons_append, List.cons_append, newlinePieces, newlinePieces, ih]
    split
    · rfl
    · cases pieces : newlinePieces (xs ++ ['\n']) with
      | nil =>
        have whole := newlinePieces_flatten (xs ++ ['\n'])
        rw [pieces] at whole
        exact absurd whole.symm (List.append_ne_nil_of_right_ne_nil _ (List.cons_ne_nil _ _))
      | cons piece pieces => rfl

theorem newlinePieces_line (oneLine : '\n' ∉ xs) : newlinePieces (xs ++ ['\n']) = [xs ++ ['\n']] := by
  induction xs with
  | nil => rfl
  | cons c xs ih =>
    rw [List.mem_cons, not_or] at oneLine
    rw [List.cons_append, newlinePieces, if_neg (Ne.symm oneLine.1), ih oneLine.2]

theorem newline_not_mem_dropLast {cs piece : List Char} (mem : piece ∈ newlinePieces cs) :
    '\n' ∉ piece.dropLast := by
  induction cs generalizing piece with
  | nil => cases mem
  | cons c cs ih =>
    rw [newlinePieces] at mem
    split at mem
    · rcases List.mem_cons.1 mem with rfl | mem
      · exact List.not_mem_nil
      · exact ih mem
    · next other =>
      split at mem
      · rw [List.mem_singleton.1 mem]
        exact List.not_mem_nil
      · next first rest pieces =>
        rw [pieces] at ih
        rcases List.mem_cons.1 mem with rfl | mem
        · cases first with
          | nil => exact List.not_mem_nil
          | cons d first =>
            rw [List.dropLast_cons_cons, List.mem_cons, not_or]
            exact ⟨Ne.symm other, ih List.mem_cons_self⟩
        · exact ih (List.mem_cons_of_mem first mem)

/-- A line is a part of the text and holds no newline. -/
theorem mem_lines {cs line : List Char} (mem : line ∈ lines cs) : line <:+: cs ∧ '\n' ∉ line := by
  obtain ⟨piece, there, rfl⟩ := List.mem_map.1 mem
  have inside : '\n' ∉ piece.dropLast := newline_not_mem_dropLast there
  have dropped : dropFinal '\r' piece.dropLast <+: piece.dropLast := by
    unfold dropFinal
    split
    · exact List.dropLast_prefix _
    · exact List.prefix_refl _
  have within : piece <:+: cs := newlinePieces_flatten cs ▸ List.infix_of_mem_flatten there
  unfold dropLineEnd
  split
  · have first := dropped.trans (List.dropLast_prefix piece)
    exact ⟨first.isInfix.trans within, fun newline => inside (dropped.subset newline)⟩
  · next last =>
    refine ⟨within, fun newline => ?_⟩
    have some : piece ≠ [] := List.ne_nil_of_mem newline
    rw [← List.dropLast_concat_getLast some, List.mem_append, List.mem_singleton] at newline
    rw [List.getLast?_eq_some_getLast some, Option.some.injEq] at last
    exact newline.elim inside (Ne.symm last)

/-- The lines of whole lines and a text behind them are those of each. -/
theorem linesOf_ended_append (ls : List String) (s : String) :
    linesOf (ended ls ++ s) = linesOf (ended ls) ++ linesOf s := by
  induction ls generalizing s with
  | nil => rw [ended_nil, String.empty_append]; rfl
  | cons l ls ih =>
    have first (rest : String) : linesOf (l ++ "\n" ++ rest) = linesOf (l ++ "\n") ++ linesOf rest := by
      simp only [linesOf, lines, String.toList_append, List.append_assoc]
      rw [show "\n".toList ++ rest.toList = '\n' :: rest.toList from rfl,
        newlinePieces_append_newline, List.map_append, List.map_append]
      rfl
    rw [ended_cons, String.append_assoc, first, ih, first, List.append_assoc]

theorem linesOf_line {l : String} (line : IsLine l) : linesOf (l ++ "\n") = [l] := by
  have noReturn : dropFinal '\r' l.toList = l.toList := dropFinal_of_getLast?_ne line.2
  rw [linesOf, lines, String.toList_append, show "\n".toList = ['\n'] from rfl,
    newlinePieces_line line.1, List.map_singleton, List.map_singleton, dropLineEnd,
    List.getLast?_concat, if_pos rfl, List.dropLast_concat, noReturn, String.ofList_toList]

/-- Lines are read back as they are if each is one line. -/
theorem linesOf_ended {ls : List String} (each : ∀ l ∈ ls, IsLine l) : linesOf (ended ls) = ls := by
  induction ls with
  | nil => rfl
  | cons l ls ih =>
    have first := linesOf_ended_append [l] (ended ls)
    rw [ended_cons, ended_nil, String.append_empty,
      linesOf_line (each l List.mem_cons_self)] at first
    rw [ended_cons, first, ih fun l' mem => each l' (List.mem_cons_of_mem l mem)]
    rfl

end Bindery.Text
