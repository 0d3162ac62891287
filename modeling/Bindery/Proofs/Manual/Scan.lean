import Bindery.Manual.Page
import Mathlib.Data.List.Induction

/-!
# Reading upwards

The synopsis of a page is found by reading upwards from its description. What is read at one line is
said here once for each kind of line, and from it what is read at several.
-/

namespace Bindery.Manual
set_option autoImplicit false

/-- A line that stops nothing and is taken as it is. -/
structure PlainLine (line : String) : Prop where
  trimmed : Text.trimmed line = line
  nonempty : line ≠ ""
  noHeading : isHeading line = false

section Above

variable {lines : List String} {position : Nat} {line : String}

/-- Reading upwards ends at a blank line. -/
theorem linesAbove_of_blank (here : lines[position]? = some line)
    (blank : Text.trimmed line = "") : linesAbove lines (position + 1) = [] := by
  rw [linesAbove.eq_def]
  simp only [here, blank, if_true]

/-- A plain line is taken behind those above it. -/
theorem linesAbove_of_plain (here : lines[position]? = some line) (plain : PlainLine line) :
    linesAbove lines (position + 1) = linesAbove lines position ++ [line] := by
  rw [linesAbove.eq_def]
  simp only [here, plain.trimmed, if_neg plain.nonempty, plain.noHeading, Bool.false_eq_true,
    if_false]

/-- From a line upwards, plain lines are taken up to the nearest empty line. -/
theorem linesAbove_eq {front middle : List String} (each : ∀ line ∈ middle, PlainLine line)
    (back : List String) :
    linesAbove (front ++ "" :: (middle ++ back)) (front.length + 1 + middle.length) = middle := by
  induction middle using List.reverseRecOn generalizing back with
  | nil =>
    have here : (front ++ "" :: ([] ++ back))[front.length]? = some "" := by simp
    exact linesAbove_of_blank here (by decide)
  | append_singleton middle line ih =>
    have plain := each line (by simp)
    have here : (front ++ "" :: (middle ++ [line] ++ back))[front.length + 1 + middle.length]? =
        some line := by
      have position : front.length + 1 + middle.length - front.length = middle.length + 1 := by
        omega
      rw [List.getElem?_append_right (by omega), position]
      simp
    have above := ih (fun l mem => each l (List.mem_append_left _ mem)) (line :: back)
    rw [List.length_append, List.length_singleton, ← Nat.add_assoc, linesAbove_of_plain here plain,
      List.append_assoc, List.singleton_append, above]

end Above

/-- A text that starts and ends with a character that is not blank is trimmed. -/
theorem trim_eq_self {c d : Char} {front rest : List Char} (same : c :: rest = front ++ [d])
    (first : Text.isBlank c = false) (last : Text.isBlank d = false) :
    Text.trim (c :: rest) = c :: rest := by
  rw [Text.trim, Text.trimStart_of_not_isBlank first, same, Text.trimEnd, List.reverse_append,
    List.reverse_singleton, List.singleton_append, Text.trimStart_of_not_isBlank last]
  simp

end Bindery.Manual
