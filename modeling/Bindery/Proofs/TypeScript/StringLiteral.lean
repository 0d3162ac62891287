import Bindery.Proofs.Json.Quoting

/-!
# String literals

What a string literal in double quotes denotes: the code units of its characters, with each escape
standing for the units it names. A text between quotes denotes itself unless it holds a quote, a
backslash or a line end, as every escape is longer than what it stands for; a string that is quoted
as in JSON denotes the string.
-/

namespace Bindery.TypeScript.StringLiteral
set_option autoImplicit false

/-! ## Code units -/

/-- The units of UTF-16 for a code point. -/
def unitsOf (code : Nat) : List Nat :=
  if code < 0x10000 then [code]
  else [0xD800 + (code - 0x10000) / 0x400, 0xDC00 + (code - 0x10000) % 0x400]

/-- A text as a string value. -/
def value (cs : List Char) : List Nat :=
  cs.flatMap fun c => unitsOf c.toNat

theorem length_unitsOf (code : Nat) : 1 ≤ (unitsOf code).length ∧ (unitsOf code).length ≤ 2 := by
  unfold unitsOf
  split <;> simp

theorem length_le_value (cs : List Char) : cs.length ≤ (value cs).length := by
  induction cs with
  | nil => exact Nat.zero_le _
  | cons c cs ih =>
    have units := (length_unitsOf c.toNat).1
    simp only [value, List.flatMap_cons, List.length_append, List.length_cons] at *
    omega

/-! ## Escapes -/

/-- Letters that stand for another unit behind a backslash, and quotes and the backslash. -/
def letters : List (Char × Nat) :=
  [('\'', 39), ('"', 34), ('\\', 92), ('b', 8), ('f', 12), ('n', 10), ('r', 13), ('t', 9), ('v', 11)]

/-- What ends a line. -/
def lineEnds : List (List Char) :=
  [['\n'], ['\r'], ['\r', '\n'], [Char.ofNat 0x2028], [Char.ofNat 0x2029]]

/-- Whether a character stands for itself behind a backslash. -/
def isItself (c : Char) : Bool :=
  !(letters.any (·.1 == c) || c.isDigit || c == 'x' || c == 'u' || lineEnds.contains [c])

/-- The number that hexadecimal digits write. -/
def hexNumber? (digits : List Char) : Option Nat :=
  digits.foldlM (fun n digit => (Json.hexDigit? digit).map (n * 16 + ·)) 0

/-- What an escape stands for, by what is behind the backslash. -/
inductive Escape : List Char → List Nat → Prop
  | letter {c : Char} {unit : Nat} (mem : (c, unit) ∈ letters) : Escape [c] [unit]
  | itself {c : Char} (plain : isItself c = true) : Escape [c] (unitsOf c.toNat)
  | byte {a b : Char} {unit : Nat} (number : hexNumber? [a, b] = some unit) :
      Escape ['x', a, b] [unit]
  | unit {a b c d : Char} {unit : Nat} (number : hexNumber? [a, b, c, d] = some unit) :
      Escape ['u', a, b, c, d] [unit]
  | codePoint {digits : List Char} {code : Nat} (some : digits ≠ [])
      (number : hexNumber? digits = .some code) (bounded : code ≤ 0x10FFFF) :
      Escape ('u' :: '{' :: digits ++ ['}']) (unitsOf code)
  | lineEnd {ending : List Char} (mem : ending ∈ lineEnds) : Escape ending []

/-- Characters that end a literal, start an escape or may not stand in one. -/
def special : List Char := ['"', '\\', '\n', '\r']

/-- What stands between the quotes of a literal, and its value. A zero behind a backslash stands for
NUL unless a digit follows. -/
inductive Content : List Char → List Nat → Prop
  | nil : Content [] []
  | plain {c : Char} {cs : List Char} {units : List Nat} (plain : c ∉ special)
      (rest : Content cs units) : Content (c :: cs) (unitsOf c.toNat ++ units)
  | zero {cs : List Char} {units : List Nat} (last : ∀ c ∈ cs.head?, c.isDigit = false)
      (rest : Content cs units) : Content ('\\' :: '0' :: cs) (0 :: units)
  | escape {escape cs : List Char} {some units : List Nat} (stands : Escape escape some)
      (rest : Content cs units) : Content ('\\' :: (escape ++ cs)) (some ++ units)

/-- A text is a literal with this value. -/
def Denotes (literal : String) (units : List Nat) : Prop :=
  ∃ cs, literal.toList = '"' :: (cs ++ ['"']) ∧ Content cs units

/-! ## Texts that denote themselves -/

/-- An escape stands for no more units than are behind its backslash. -/
theorem Escape.length_le {escape : List Char} {units : List Nat} (h : Escape escape units) :
    units.length ≤ (value escape).length := by
  have written := length_le_value escape
  cases h with
  | letter mem => exact written
  | itself plain => simp [value]
  | byte number => exact Nat.le_of_lt (Nat.lt_of_succ_lt written)
  | unit number =>
    simp only [List.length_cons, List.length_nil] at written ⊢
    omega
  | codePoint some number bounded =>
    simp only [List.length_append, List.length_cons, List.length_nil] at written
    exact Nat.le_trans (length_unitsOf _).2 (by omega)
  | lineEnd mem => exact Nat.zero_le _

theorem value_append (cs ds : List Char) : value (cs ++ ds) = value cs ++ value ds :=
  List.flatMap_append

theorem length_value_cons (c : Char) (cs : List Char) :
    (value (c :: cs)).length = (unitsOf c.toNat).length + (value cs).length := by
  rw [value, List.flatMap_cons, List.length_append, value]

/-- A literal denotes no more units than it holds, and fewer if there is an escape in it. -/
theorem Content.length_le {cs : List Char} {units : List Nat} (h : Content cs units) :
    units.length ≤ (value cs).length ∧ ('\\' ∈ cs → units.length < (value cs).length) := by
  have backslash : (unitsOf '\\'.toNat).length = 1 := rfl
  have zero : (unitsOf '0'.toNat).length = 1 := rfl
  induction h with
  | nil => exact ⟨Nat.le_refl _, nofun⟩
  | @plain c cs units plain rest ih =>
    rw [length_value_cons, List.length_append]
    refine ⟨Nat.add_le_add_left ih.1 _, fun mem => Nat.add_lt_add_left (ih.2 ?_) _⟩
    rcases List.mem_cons.1 mem with rfl | mem
    · exact absurd (by decide) plain
    · exact mem
  | zero last rest ih =>
    rw [length_value_cons, length_value_cons, List.length_cons]
    omega
  | escape stands rest ih =>
    have few := stands.length_le
    rw [length_value_cons, value_append, List.length_append, List.length_append]
    omega

/-- **Which texts denote themselves.** -/
theorem content_value_iff (cs : List Char) : Content cs (value cs) ↔ ∀ c ∈ cs, c ∉ special := by
  constructor
  · intro h
    have plain : '\\' ∉ cs := fun mem => Nat.lt_irrefl _ (h.length_le.2 mem)
    generalize value cs = units at h
    induction h with
    | nil => nofun
    | plain first rest ih =>
      exact List.forall_mem_cons.2 ⟨first, ih fun mem => plain (List.mem_cons_of_mem _ mem)⟩
    | zero => exact absurd List.mem_cons_self plain
    | escape => exact absurd List.mem_cons_self plain
  · intro plain
    induction cs with
    | nil => exact .nil
    | cons c cs ih =>
      obtain ⟨first, rest⟩ := List.forall_mem_cons.1 plain
      exact .plain first (ih rest)

theorem denotes_itself_iff (s : String) :
    Denotes ("\"" ++ s ++ "\"") (value s.toList) ↔ ∀ c ∈ s.toList, c ∉ special := by
  rw [← content_value_iff]
  have text : ("\"" ++ s ++ "\"").toList = '"' :: (s.toList ++ ['"']) := by simp
  unfold Denotes
  rw [text]
  constructor
  · rintro ⟨cs, same, content⟩
    rw [List.cons.injEq, List.append_left_inj] at same
    exact same.2 ▸ content
  · exact fun content => ⟨_, rfl, content⟩

/-! ## Texts in quotes -/

/-- A letter that stands for a character in a JSON string stands for it in a literal. -/
theorem escape_letter {letter c : Char} (stands : Json.simpleEscape? letter = some c) :
    Escape [letter] (unitsOf c.toNat) := by
  unfold Json.simpleEscape? at stands
  split at stands <;> cases stands
  -- The slash has no meaning of its own, unlike the other letters.
  case h_3 => exact .itself (by decide)
  all_goals exact .letter (by decide)

/-- A character, written as in a JSON string. -/
theorem Content.escapeChar {cs : List Char} {units : List Nat} (rest : Content cs units) (c : Char) :
    Content (Json.escapeChar c ++ cs) (unitsOf c.toNat ++ units) := by
  have written := Json.written_escapeChar c
  generalize Json.escapeChar c = text at written ⊢
  cases written with
  | letter stands => exact .escape (escape_letter stands) rest
  | unicode control =>
    have number : hexNumber? ['0', '0', Json.hexDigit (c.toNat / 16), Json.hexDigit c.toNat] =
        some c.toNat := by
      have zero : Json.hexDigit? '0' = some 0 := rfl
      simp only [hexNumber?, List.foldlM_cons, List.foldlM_nil, Json.hexDigit?_hexDigit, zero,
        Option.map_some, Option.bind_eq_bind, Option.bind_some, Option.pure_def, Option.some.injEq]
      omega
    have small : unitsOf c.toNat = [c.toNat] := if_pos (by omega)
    rw [small]
    exact .escape (.unit number) rest
  | plain quote backslash shown =>
    have above {d : Char} (below : d.toNat < 32) : c ≠ d := by
      rintro rfl
      exact Nat.not_lt.2 shown below
    have plain : c ∉ special := by
      simp [special, quote, backslash, above (d := '\n') (by decide), above (d := '\r') (by decide)]
    exact .plain plain rest

/-- A string in quotes, as in JSON, denotes the string. -/
theorem denotes_quote (s : String) : Denotes (Json.quote s) (value s.toList) := by
  have content (cs : List Char) : Content (cs.flatMap Json.escapeChar) (value cs) := by
    induction cs with
    | nil => exact .nil
    | cons c cs ih => exact ih.escapeChar c
  exact ⟨_, by simp [Json.quote], content s.toList⟩

end Bindery.TypeScript.StringLiteral
