import Bindery.Text.Bytes

/-!
# Positions between characters

A position of a text is a boundary if it falls between two characters or at one of its ends. The
characters of a byte range can be read exactly if both ends of the range are boundaries.
-/

namespace Bindery.Text
set_option autoImplicit false

/-- The position falls between two characters of the text, or at one of its ends. -/
def Boundary (text : List Char) (pos : Nat) : Prop :=
  ∃ front back, text = front ++ back ∧ byteLength front = pos

/-- A byte range of a text whose ends are boundaries. -/
structure Span.Within (span : Span) (text : List Char) : Prop where
  ordered : span.start ≤ span.stop
  start : Boundary text span.start
  stop : Boundary text span.stop

variable {text chars front back : List Char} {pos : Nat} {span : Span}

theorem byteLength_eq_zero : byteLength text = 0 ↔ text = [] := by
  cases text with
  | nil => simp
  | cons c text =>
    have size := c.utf8Size_pos
    rw [byteLength_cons]
    constructor
    · intro none
      omega
    · intro none
      cases none

theorem boundary_zero (text : List Char) : Boundary text 0 :=
  ⟨[], text, rfl, rfl⟩

theorem boundary_byteLength (text : List Char) : Boundary text (byteLength text) :=
  ⟨text, [], (List.append_nil text).symm, rfl⟩

/-! ## Reading a byte range -/

/-- What can be split off a text is its first character and what can be split off the others. -/
theorem split_cons {c : Char} : c :: text = front ++ back ∧ byteLength front = pos + 1 ↔
    ∃ rest, front = c :: rest ∧ c.utf8Size ≤ pos + 1 ∧ text = rest ++ back ∧
      byteLength rest = pos + 1 - c.utf8Size := by
  constructor
  · rintro ⟨whole, size⟩
    cases front with
    | nil => cases size
    | cons d rest =>
      obtain ⟨rfl, split⟩ := List.cons.inj whole
      rw [byteLength_cons] at size
      exact ⟨rest, rfl, by omega, split, by omega⟩
  · rintro ⟨rest, rfl, fits, rfl, size⟩
    refine ⟨rfl, ?_⟩
    rw [byteLength_cons, size, Nat.add_sub_cancel' fits]

theorem dropBytes?_eq_some :
    dropBytes? pos text = some back ↔ ∃ front, text = front ++ back ∧ byteLength front = pos := by
  fun_induction dropBytes? pos text with
  | case1 text =>
    constructor
    · intro whole
      exact ⟨[], Option.some.inj whole, rfl⟩
    · rintro ⟨front, rfl, none⟩
      rw [byteLength_eq_zero.1 none]
      rfl
  | case2 pos =>
    constructor
    · intro found
      cases found
    · rintro ⟨front, nothing, size⟩
      rw [(List.append_eq_nil_iff.1 nothing.symm).1] at size
      cases size
  | case3 pos c text fits ih =>
    rw [ih]
    constructor
    · rintro ⟨front, split⟩
      exact ⟨c :: front, split_cons.2 ⟨front, rfl, fits, split⟩⟩
    · rintro ⟨front, split⟩
      obtain ⟨rest, -, -, split⟩ := split_cons.1 split
      exact ⟨rest, split⟩
  | case4 pos c text wide =>
    constructor
    · intro found
      cases found
    · rintro ⟨front, split⟩
      obtain ⟨rest, -, fits, -⟩ := split_cons.1 split
      exact absurd fits wide

theorem takeBytes?_eq_some :
    takeBytes? pos text = some front ↔ ∃ back, text = front ++ back ∧ byteLength front = pos := by
  fun_induction takeBytes? pos text generalizing front with
  | case1 text =>
    constructor
    · intro none
      rw [← Option.some.inj none]
      exact ⟨text, rfl, rfl⟩
    · rintro ⟨back, -, none⟩
      rw [byteLength_eq_zero.1 none]
  | case2 pos =>
    constructor
    · intro found
      cases found
    · rintro ⟨back, nothing, size⟩
      rw [(List.append_eq_nil_iff.1 nothing.symm).1] at size
      cases size
  | case3 pos c text fits ih =>
    rw [Option.map_eq_some_iff]
    constructor
    · rintro ⟨rest, taken, rfl⟩
      obtain ⟨back, split⟩ := ih.1 taken
      exact ⟨back, split_cons.2 ⟨rest, rfl, fits, split⟩⟩
    · rintro ⟨back, split⟩
      obtain ⟨rest, rfl, -, split⟩ := split_cons.1 split
      exact ⟨rest, ih.2 ⟨back, split⟩, rfl⟩
  | case4 pos c text wide =>
    constructor
    · intro found
      cases found
    · rintro ⟨back, split⟩
      obtain ⟨rest, -, fits, -⟩ := split_cons.1 split
      exact absurd fits wide

/-- A byte range holds the characters that stand between its ends. -/
theorem slice?_eq_some_iff :
    slice? text span = some chars ↔ ∃ front back, text = front ++ (chars ++ back) ∧
      span.start = byteLength front ∧ span.stop = byteLength front + byteLength chars := by
  unfold slice? Span.length
  constructor
  · intro found
    split at found
    · next ordered =>
      obtain ⟨rest, dropped, taken⟩ := Option.bind_eq_some_iff.1 found
      obtain ⟨front, rfl, start⟩ := dropBytes?_eq_some.1 dropped
      obtain ⟨back, rfl, size⟩ := takeBytes?_eq_some.1 taken
      exact ⟨front, back, rfl, start.symm, by omega⟩
    · cases found
  · rintro ⟨front, back, rfl, start, stop⟩
    rw [if_pos (by omega), Option.bind_eq_some_iff]
    exact ⟨chars ++ back, dropBytes?_eq_some.2 ⟨front, rfl, start.symm⟩,
      takeBytes?_eq_some.2 ⟨back, rfl, by omega⟩⟩

theorem within_of_slice? (found : slice? text span = some chars) : span.Within text := by
  obtain ⟨front, back, rfl, start, stop⟩ := slice?_eq_some_iff.1 found
  refine ⟨by omega, ⟨front, chars ++ back, rfl, start.symm⟩, front ++ chars, back, ?_, ?_⟩
  · rw [List.append_assoc]
  · rw [byteLength_append, stop]

namespace Span.Within

/-- Between two boundaries there are characters to be read. -/
theorem exists_slice? (h : span.Within text) : ∃ chars, slice? text span = some chars := by
  obtain ⟨ordered, ⟨front, back, rfl, start⟩, front', back', same, stop⟩ := h
  rcases List.append_eq_append_iff.1 same with ⟨chars, rfl, rfl⟩ | ⟨chars, rfl, rfl⟩
  · rw [byteLength_append] at stop
    exact ⟨chars, slice?_eq_some_iff.2 ⟨front, back', rfl, start.symm, by omega⟩⟩
  · -- the ends are in order, so nothing lies between them in this case
    rw [byteLength_append] at start
    have none : chars = [] := byteLength_eq_zero.1 (by omega)
    subst none
    refine ⟨[], slice?_eq_some_iff.2 ⟨front', back, by simp, ?_, ?_⟩⟩
    · rw [← start, byteLength_nil, Nat.add_zero]
    · rw [← stop, byteLength_nil, Nat.add_zero]

theorem through {first last : Span} (h : first.Within text) (h' : last.Within text)
    (ordered : first.start ≤ last.stop) : (first.through last).Within text :=
  ⟨ordered, h.start, h'.stop⟩

end Span.Within

end Bindery.Text
