import Bindery.Text.Bytes

/-!
# Lines

A text is cut at its newlines in three ways: into the parts between them (`splitNewlines`), into
pieces that keep their newline (`newlinePieces`), and into the lines a reader sees (`lines`), where
a carriage return before the newline belongs to the line end and nothing follows a final newline.
-/

namespace Bindery.Text
set_option autoImplicit false

/-- The parts of a text between newlines: one more than there are newlines. -/
def splitNewlines : List Char → List (List Char)
  | [] => [[]]
  | c :: cs =>
    if c = '\n' then [] :: splitNewlines cs
    else match splitNewlines cs with
      | [] => [[c]]
      | part :: parts => (c :: part) :: parts

/-- The text cut after every newline. No piece is empty, and only the last may lack a newline. -/
def newlinePieces : List Char → List (List Char)
  | [] => []
  | c :: cs =>
    if c = '\n' then [c] :: newlinePieces cs
    else match newlinePieces cs with
      | [] => [[c]]
      | piece :: pieces => (c :: piece) :: pieces

/-- A text without its last character, if that character is `c`. -/
def dropFinal (c : Char) (cs : List Char) : List Char :=
  if cs.getLast? = some c then cs.dropLast else cs

/-- A piece without its line end: a newline, and a carriage return in front of that newline. -/
def dropLineEnd (piece : List Char) : List Char :=
  if piece.getLast? = some '\n' then dropFinal '\r' piece.dropLast else piece

/-- The lines of a text, without their line ends. -/
def lines (cs : List Char) : List (List Char) :=
  (newlinePieces cs).map dropLineEnd

/-- `lines` on strings. -/
def linesOf (s : String) : List String :=
  (lines s.toList).map String.ofList

/-- The byte position of a line and column, both counted from one and the column in bytes. A
position outside the text is moved to its end. -/
def lineColumnOffset (cs : List Char) (line column : Nat) : Nat :=
  min (byteLength ((newlinePieces cs).take (line - 1)).flatten + (column - 1)) (byteLength cs)

theorem splitNewlines_ne_nil (cs : List Char) : splitNewlines cs ≠ [] := by
  cases cs with
  | nil => simp [splitNewlines]
  | cons c cs =>
    simp only [splitNewlines]
    split
    · simp
    · split <;> simp

/-- The pieces are the whole text. -/
theorem newlinePieces_flatten (cs : List Char) : (newlinePieces cs).flatten = cs := by
  induction cs with
  | nil => rfl
  | cons c cs ih =>
    simp only [newlinePieces]
    split
    · simp [ih]
    · split
      · next h => rw [h] at ih; simp at ih; simp [← ih]
      · next h => rw [h] at ih; simpa using ih

/-- A position is never past the end of the text. -/
theorem lineColumnOffset_le (cs : List Char) (line column : Nat) :
    lineColumnOffset cs line column ≤ byteLength cs :=
  Nat.min_le_right _ _

end Bindery.Text
