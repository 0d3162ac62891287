/-!
# Byte positions

Positions in a text count the bytes of its UTF-8 form. A `Span` is a half-open byte range;
`slice?` reads the characters of one, provided both of its ends fall between characters.
-/

namespace Bindery.Text
set_option autoImplicit false

/-- The number of bytes of a text. -/
def byteLength : List Char → Nat
  | [] => 0
  | c :: cs => c.utf8Size + byteLength cs

/-- A byte range: from `start` up to, and without, `stop`. -/
structure Span where
  start : Nat
  stop : Nat
deriving Repr, DecidableEq, Inhabited

namespace Span

/-- The range from where one span starts to where another ends. -/
def through (first last : Span) : Span :=
  ⟨first.start, last.stop⟩

/-- The number of bytes in the range. -/
def length (s : Span) : Nat :=
  s.stop - s.start

end Span

/-- What is left of a text after its first `n` bytes, if that is a whole number of characters. -/
def dropBytes? : Nat → List Char → Option (List Char)
  | 0, cs => some cs
  | _ + 1, [] => none
  | n + 1, c :: cs => if c.utf8Size ≤ n + 1 then dropBytes? (n + 1 - c.utf8Size) cs else none
termination_by _ cs => cs.length

/-- The first `n` bytes of a text, if that is a whole number of characters. -/
def takeBytes? : Nat → List Char → Option (List Char)
  | 0, _ => some []
  | _ + 1, [] => none
  | n + 1, c :: cs =>
    if c.utf8Size ≤ n + 1 then (takeBytes? (n + 1 - c.utf8Size) cs).map (c :: ·) else none
termination_by _ cs => cs.length

/-- The characters of a byte range of a text; none if the range is reversed, leaves the text or
cuts a character. -/
def slice? (cs : List Char) (span : Span) : Option (List Char) :=
  if span.start ≤ span.stop then (dropBytes? span.start cs).bind (takeBytes? span.length)
  else none

@[simp]
theorem byteLength_nil : byteLength [] = 0 := rfl

@[simp]
theorem byteLength_cons (c : Char) (cs : List Char) :
    byteLength (c :: cs) = c.utf8Size + byteLength cs := rfl

@[simp]
theorem byteLength_append (xs ys : List Char) :
    byteLength (xs ++ ys) = byteLength xs + byteLength ys := by
  induction xs with
  | nil => simp
  | cons c cs ih => simp [ih, Nat.add_assoc]

end Bindery.Text
