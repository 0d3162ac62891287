import Bindery.Proofs.Text.ByteOrder
import Bindery.Proofs.Text.Lines
import Mathlib.Data.List.DropRight

/-!
# Lines and columns

A byte position has a line, counted by the newlines in front of it, and a column, counted by the bytes
since the last of them. Line and column lead back to the position, even to one inside a character: no
other character has the byte of a newline, so that each newline among the bytes ends a piece of the text.
-/

namespace Bindery.Text
set_option autoImplicit false

variable {cs : List Char} {c : Char} {bytes front back : List UInt8}

/-- The byte of a newline. -/
def newlineByte : UInt8 := 10

/-- The bytes behind the last newline, or all of them if there is none. -/
def lastLine (bytes : List UInt8) : List UInt8 :=
  bytes.rtakeWhile (· != newlineByte)

/-- The line of a byte position: one more than there are newlines in front of it. -/
def lineAt (text : String) (offset : Nat) : Nat :=
  1 + ((utf8 text).take offset).count newlineByte

/-- The column of a byte position: one more than there are bytes between the newline in front of it, or
the start of the text, and the position. -/
def columnAt (text : String) (offset : Nat) : Nat :=
  1 + (lastLine ((utf8 text).take offset)).length

theorem newlineByte_not_mem_lastLine (bytes : List UInt8) : newlineByte ∉ lastLine bytes := by
  intro mem
  simpa using List.mem_rtakeWhile_imp mem

/-- Bytes are one line, or a newline stands in front of their last line. -/
theorem lastLine_cut (bytes : List UInt8) :
    lastLine bytes = bytes ∨ ∃ front, bytes = front ++ newlineByte :: lastLine bytes := by
  -- by the byte at the end, where the last line grows
  induction bytes using List.reverseRecOn with
  | nil => exact .inl rfl
  | append_singleton bytes b ih =>
    by_cases newline : b = newlineByte
    · have nothing : lastLine (bytes ++ [b]) = [] :=
        List.rtakeWhile_concat_neg _ _ _ (by simp [newline])
      exact .inr ⟨bytes, by rw [nothing, newline]⟩
    · have more : lastLine (bytes ++ [b]) = lastLine bytes ++ [b] :=
        List.rtakeWhile_concat_pos _ _ _ (by simpa using newline)
      rw [more]
      rcases ih with whole | ⟨front, cut⟩
      · exact .inl (by rw [whole])
      · refine .inr ⟨front, ?_⟩
        rw [← List.cons_append, ← List.append_assoc, ← cut]

/-! ## Newlines among bytes -/

/-- Only the bytes of a newline hold one. -/
theorem newlineByte_mem_encodeChar : newlineByte ∈ String.utf8EncodeChar c ↔ c = '\n' := by
  constructor
  · intro mem
    have value : c.val.toNat = 10 := by
      unfold String.utf8EncodeChar at mem
      generalize c.val.toNat = v at mem ⊢
      dsimp only at mem
      -- the bytes of a longer character are 128 or more
      split_ifs at mem <;>
        simp only [newlineByte, List.mem_cons, List.not_mem_nil, or_false, ← UInt8.toNat_inj,
          UInt8.toNat_ofNat', UInt8.reduceToNat] at mem <;>
        omega
    exact Char.ext (UInt32.toNat_inj.1 value)
  · rintro rfl
    decide

theorem count_newlineByte (cs : List Char) :
    (cs.flatMap String.utf8EncodeChar).count newlineByte = cs.count '\n' := by
  induction cs with
  | nil => rfl
  | cons c cs ih =>
    rw [List.flatMap_cons, List.count_append, ih]
    by_cases newline : c = '\n'
    · subst newline
      rw [List.count_cons_self, Nat.add_comm]
      rfl
    · have none : newlineByte ∉ String.utf8EncodeChar c := mt newlineByte_mem_encodeChar.1 newline
      rw [List.count_eq_zero_of_not_mem none, List.count_cons_of_ne newline, Nat.zero_add]

theorem length_flatMap_encodeChar (cs : List Char) :
    (cs.flatMap String.utf8EncodeChar).length = byteLength cs := by
  induction cs with
  | nil => rfl
  | cons c cs ih =>
    rw [List.flatMap_cons, List.length_append, String.length_utf8EncodeChar, ih, byteLength_cons]

theorem length_utf8 (text : String) : (utf8 text).length = byteLength text.toList := by
  rw [utf8_eq, length_flatMap_encodeChar]

/-- A newline among the bytes of a text is a newline of the text. -/
theorem newline_of_newlineByte
    (cut : cs.flatMap String.utf8EncodeChar = front ++ newlineByte :: back) :
    ∃ above below, cs = above ++ '\n' :: below ∧ above.flatMap String.utf8EncodeChar = front := by
  induction cs generalizing front with
  | nil => exact absurd cut.symm (List.append_ne_nil_of_right_ne_nil _ (List.cons_ne_nil _ _))
  | cons c cs ih =>
    have behind (rest : List UInt8) (first : front = String.utf8EncodeChar c ++ rest)
        (cut : cs.flatMap String.utf8EncodeChar = rest ++ newlineByte :: back) :
        ∃ above below, c :: cs = above ++ '\n' :: below ∧
          above.flatMap String.utf8EncodeChar = front := by
      obtain ⟨above, below, rfl, bytesAbove⟩ := ih cut
      exact ⟨c :: above, below, rfl, by rw [List.flatMap_cons, bytesAbove, first]⟩
    rw [List.flatMap_cons] at cut
    by_cases newline : c = '\n'
    · subst newline
      cases front with
      | nil => exact ⟨[], cs, rfl, rfl⟩
      | cons b front =>
        obtain ⟨first, cut⟩ := List.cons.inj cut
        exact behind front (congrArg (· :: front) first.symm) cut
    · have none : newlineByte ∉ String.utf8EncodeChar c := mt newlineByte_mem_encodeChar.1 newline
      rcases List.append_eq_append_iff.1 cut with ⟨rest, first, cut⟩ | ⟨rest, first, cut⟩
      · exact behind rest first cut
      · -- the first character ends in front of the newline
        cases rest with
        | nil => exact behind [] (by simpa using first.symm) cut.symm
        | cons b rest =>
          rw [first, (List.cons.inj cut).1] at none
          exact absurd (List.mem_append_right front List.mem_cons_self) none

/-! ## From lines and columns to positions -/

theorem length_newlinePieces_concat (cs : List Char) :
    (newlinePieces (cs ++ ['\n'])).length = cs.count '\n' + 1 := by
  induction cs with
  | nil => rfl
  | cons c cs ih =>
    rw [List.cons_append, newlinePieces]
    split
    · next newline => rw [newline, List.length_cons, ih, List.count_cons_self]
    · next other =>
      rw [List.count_cons_of_ne other, ← ih]
      cases pieces : newlinePieces (cs ++ ['\n']) with
      | nil => simp [pieces] at ih
      | cons piece pieces => rfl

/-- As many pieces as there are newlines in a text up to one of them are the text up to there. -/
theorem flatten_take_newlinePieces (above below : List Char) :
    ((newlinePieces (above ++ '\n' :: below)).take (above.count '\n' + 1)).flatten =
      above ++ ['\n'] := by
  rw [newlinePieces_append_newline, List.take_left' (length_newlinePieces_concat above),
    newlinePieces_flatten]

/-- The pieces in front of the last line of some bytes of a text, and that line, are all of the bytes. -/
theorem byteLength_take_add_lastLine (start : bytes <+: cs.flatMap String.utf8EncodeChar) :
    byteLength ((newlinePieces cs).take (bytes.count newlineByte)).flatten + (lastLine bytes).length =
      bytes.length := by
  obtain ⟨rest, whole⟩ := start
  have none := List.count_eq_zero_of_not_mem (newlineByte_not_mem_lastLine bytes)
  rcases lastLine_cut bytes with oneLine | ⟨front, cut⟩
  · rw [oneLine] at none
    rw [oneLine, none, List.take_zero, List.flatten_nil, byteLength_nil, Nat.zero_add]
  · rw [cut, List.append_assoc, List.cons_append] at whole
    obtain ⟨above, below, rfl, bytesAbove⟩ := newline_of_newlineByte whole.symm
    have lines : bytes.count newlineByte = above.count '\n' + 1 := by
      rw [cut, List.count_append, List.count_cons_self, none, ← bytesAbove, count_newlineByte]
    have length : bytes.length = byteLength above + 1 + (lastLine bytes).length := by
      have parts := congrArg List.length cut
      rw [List.length_append, List.length_cons, ← bytesAbove, length_flatMap_encodeChar] at parts
      omega
    rw [lines, flatten_take_newlinePieces, length, byteLength_append]
    rfl

/-- **Line and column lead back to the position they were taken of**, for every byte of a text and for
its end; whatever line and column, they lead to a position of the text. -/
theorem lineColumnOffset_lineAt_columnAt (text : String) :
    (∀ offset ≤ (utf8 text).length,
      lineColumnOffset text.toList (lineAt text offset) (columnAt text offset) = offset) ∧
    ∀ line column, lineColumnOffset text.toList line column ≤ (utf8 text).length := by
  refine ⟨fun offset within => ?_, fun line column => ?_⟩
  · have start : (utf8 text).take offset <+: text.toList.flatMap String.utf8EncodeChar :=
      utf8_eq text ▸ List.take_prefix offset (utf8 text)
    have place := byteLength_take_add_lastLine start
    rw [List.length_take_of_le within] at place
    rw [lineColumnOffset, lineAt, columnAt, Nat.add_sub_cancel_left, Nat.add_sub_cancel_left, place,
      ← length_utf8]
    exact Nat.min_eq_left within
  · rw [length_utf8]
    exact lineColumnOffset_le text.toList line column

/-- A position inside a character behind an empty line, the end of a text behind its last newline, and a
place that is not there. -/
theorem lineColumnOffset_lineAt_columnAt_emoji :
    (utf8 "é\n\n😀!\n").length = 10 ∧ lineAt "é\n\n😀!\n" 6 = 3 ∧ columnAt "é\n\n😀!\n" 6 = 3 ∧
      lineColumnOffset "é\n\n😀!\n".toList 3 3 = 6 ∧ lineAt "é\n\n😀!\n" 10 = 4 ∧
      columnAt "é\n\n😀!\n" 10 = 1 ∧ lineColumnOffset "é\n\n😀!\n".toList 4 1 = 10 ∧
      lineColumnOffset "é\n\n😀!\n".toList 2 99 ≤ 10 := by
  obtain ⟨back, bound⟩ := lineColumnOffset_lineAt_columnAt "é\n\n😀!\n"
  have size : (utf8 "é\n\n😀!\n").length = 10 := by decide
  have inside : lineAt "é\n\n😀!\n" 6 = 3 ∧ columnAt "é\n\n😀!\n" 6 = 3 := by decide
  have atEnd : lineAt "é\n\n😀!\n" 10 = 4 ∧ columnAt "é\n\n😀!\n" 10 = 1 := by decide
  refine ⟨size, inside.1, inside.2, ?_, atEnd.1, atEnd.2, ?_, size ▸ bound 2 99⟩
  · have there := back 6 (by decide)
    rwa [inside.1, inside.2] at there
  · have there := back 10 (by decide)
    rwa [atEnd.1, atEnd.2] at there

end Bindery.Text
