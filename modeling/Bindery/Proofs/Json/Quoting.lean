import Bindery.Json.Reader
import Bindery.Json.Writer

/-!
# Reading what was quoted

A string in quotes is read back as the string.
-/

namespace Bindery.Json
set_option autoImplicit false

theorem hexDigit?_hexDigit (n : Nat) : hexDigit? (hexDigit n) = some (n % 16) := by
  have all : ∀ d < 16, hexDigit? (Nat.digitChar d) = some d := by decide
  exact all _ (Nat.mod_lt n (by decide))

/-- An escape of four digits that is no half of a surrogate pair is the character. -/
theorem readString_unicode {a b c d : Char} {n : Nat} (value : hex4? a b c d = some n)
    (high : isHighSurrogate n = false) (low : isLowSurrogate n = false) (cs : List Char) :
    readString ('\\' :: 'u' :: a :: b :: c :: d :: cs) =
      (readString cs).map fun r => (Char.ofNat n :: r.1, r.2) := by
  rw [readString.eq_def]
  split
  · next same => cases same
  · next same => cases same
  · next same =>
    cases same
    simp [value, high, low]
  · next same =>
    cases same
    simp [value, high, low]
  · next other same =>
    cases same
    exact absurd rfl (other a b c d cs rfl)
  · next other same =>
    cases same
    exact absurd rfl (other 'u' _ rfl)

/-- A character that needs no escape is read as it is. -/
theorem readString_plain {c : Char} (quote : c ≠ '"') (backslash : c ≠ '\\') (shown : 32 ≤ c.toNat)
    (cs : List Char) :
    readString (c :: cs) = (readString cs).map fun r => (c :: r.1, r.2) := by
  rw [readString.eq_def]
  split
  · next same => cases same
  · next same =>
    cases same
    exact absurd rfl quote
  · next same =>
    cases same
    exact absurd rfl backslash
  · next same =>
    cases same
    exact absurd rfl backslash
  · next same =>
    cases same
    exact absurd rfl backslash
  · next same =>
    cases same
    rw [if_neg (by simpa [backslash] using shown)]

/-- An escape of one letter is read as what the letter stands for. -/
theorem readString_letter {letter c : Char} (stands : simpleEscape? letter = some c)
    (cs : List Char) :
    readString ('\\' :: letter :: cs) = (readString cs).map fun r => (c :: r.1, r.2) := by
  rw [readString.eq_def]
  split
  · next same => cases same
  · next same => cases same
  · next same =>
    cases same
    cases stands
  · next same =>
    cases same
    cases stands
  · next same =>
    cases same
    rw [stands]
  · next other same =>
    cases same
    exact absurd rfl (other letter cs rfl)

/-! ## Characters in quotes -/

/-- How a character is written in quotes. -/
inductive Written (c : Char) : List Char → Prop
  | letter {letter : Char} (stands : simpleEscape? letter = some c) : Written c ['\\', letter]
  | unicode (control : c.toNat < 32) :
      Written c ['\\', 'u', '0', '0', hexDigit (c.toNat / 16), hexDigit c.toNat]
  | plain (quote : c ≠ '"') (backslash : c ≠ '\\') (shown : 32 ≤ c.toNat) : Written c [c]

theorem written_escapeChar (c : Char) : Written c (escapeChar c) := by
  have numbered {n : Nat} (code : c.toNat = n) : some (Char.ofNat n) = some c := by
    rw [← code, c.ofNat_toNat]
  unfold escapeChar
  split
  · next same =>
    subst same
    exact .letter rfl
  split
  · next same =>
    subst same
    exact .letter rfl
  split
  · next same =>
    subst same
    exact .letter rfl
  split
  · next same =>
    subst same
    exact .letter rfl
  split
  · next same =>
    subst same
    exact .letter rfl
  split
  · next code => exact .letter (numbered code)
  split
  · next code => exact .letter (numbered code)
  split
  · next control => exact .unicode control
  · next quote backslash _ _ _ _ _ shown => exact .plain quote backslash (Nat.le_of_not_lt shown)

theorem readString_escapeChar (c : Char) (cs : List Char) :
    readString (escapeChar c ++ cs) = (readString cs).map fun r => (c :: r.1, r.2) := by
  have written := written_escapeChar c
  generalize escapeChar c = text at written ⊢
  cases written with
  | letter stands => exact readString_letter stands cs
  | unicode control =>
    have value : hex4? '0' '0' (hexDigit (c.toNat / 16)) (hexDigit c.toNat) = some c.toNat := by
      have zero : hexDigit? '0' = some 0 := rfl
      unfold hex4?
      rw [hexDigit?_hexDigit, hexDigit?_hexDigit, zero]
      simp only [Option.bind_eq_bind, Option.bind_some, Option.pure_def, Option.some.injEq]
      omega
    have high : isHighSurrogate c.toNat = false := by
      simp only [isHighSurrogate, Bool.and_eq_false_iff, decide_eq_false_iff_not]
      omega
    have low : isLowSurrogate c.toNat = false := by
      simp only [isLowSurrogate, Bool.and_eq_false_iff, decide_eq_false_iff_not]
      omega
    have unit := readString_unicode value high low cs
    rwa [c.ofNat_toNat] at unit
  | plain quote backslash shown => exact readString_plain quote backslash shown cs

/-- What stands in quotes is read up to the closing quote. -/
theorem readString_escaped (cs rest : List Char) :
    readString (cs.flatMap escapeChar ++ '"' :: rest) = some (cs, rest) := by
  induction cs with
  | nil => rfl
  | cons c cs ih =>
    rw [List.flatMap_cons, List.append_assoc, readString_escapeChar, ih]
    rfl

/-- **Quoting can be undone.** -/
theorem parse?_quote (s : String) : parse? (quote s) = some (.string s) := by
  have text : (quote s).toList = '"' :: (s.toList.flatMap escapeChar ++ ['"']) := by simp [quote]
  have value : readValue maxDepth (quote s).toList = some (.string s, []) := by
    rw [text, readValue.eq_def]
    change (readString _).map _ = _
    rw [readString_escaped, Option.map_some, String.ofList_toList]
  unfold parse?
  rw [value]
  rfl

end Bindery.Json
