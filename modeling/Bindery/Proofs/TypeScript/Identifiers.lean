import Bindery.Proofs.Text.Words
import Bindery.TypeScript.Identifier

/-!
# Which names are identifiers

A method or type is called by the words of a command's name, with the case of first letters changed.
The result is an identifier if the words consist of letters, digits and dollar signs of ASCII, but
for first letters that the change of case brings into ASCII, and do not start with a digit.
-/

namespace Bindery.TypeScript
set_option autoImplicit false

open Text (ChangesCase camelCase capitalize decapitalize isOutside lower lowerInside pascalCase upper
  upperInside words)

/-! ## Identifiers -/

theorem not_isDigit_of_isAlpha {c : Char} (letter : c.isAlpha = true) : c.isDigit = false := by
  unfold Char.isAlpha Char.isUpper Char.isLower at letter
  simp [Char.isDigit, UInt32.le_iff_toNat_le] at *
  omega

theorem part_of_isAlpha {c : Char} (letter : c.isAlpha = true) : isIdentifierPart c = true := by
  simp [isIdentifierPart, Char.isAlphanum, letter]

theorem inside_of_part {c : Char} (part : isIdentifierPart c = true) : isOutside c = false := by
  have same : c.toNat = c.val.toNat := rfl
  unfold isIdentifierPart Char.isAlphanum Char.isAlpha Char.isUpper Char.isLower at part
  simp [isOutside, Char.isDigit, UInt32.le_iff_toNat_le] at *
  rcases part with (letter | rfl) | rfl
  · omega
  · decide
  · decide

theorem inside_of_isDigit {c : Char} (digit : c.isDigit = true) : isOutside c = false :=
  inside_of_part (by simp [isIdentifierPart, Char.isAlphanum, digit])

theorem isIdentifierStart_iff (c : Char) :
    isIdentifierStart c = true ↔ isIdentifierPart c = true ∧ c.isDigit = false := by
  cases digit : c.isDigit with
  | false => simp [isIdentifierStart, isIdentifierPart, Char.isAlphanum, digit]
  | true =>
    have letter : c.isAlpha = false := by
      rw [← Bool.not_eq_true]
      intro letter
      rw [not_isDigit_of_isAlpha letter] at digit
      cases digit
    have underscore : c ≠ '_' := by
      rintro rfl
      cases digit
    have dollar : c ≠ '$' := by
      rintro rfl
      cases digit
    simp [isIdentifierStart, letter, underscore, dollar]

/-- An identifier consists of letters, digits, underscores and dollar signs, and does not start with
a digit. -/
theorem isIdentifier_iff (name : String) : isIdentifier name = true ↔
    (∀ c ∈ name.toList, isIdentifierPart c = true) ∧
      ∃ c cs, name.toList = c :: cs ∧ c.isDigit = false := by
  unfold isIdentifier
  cases chars : name.toList with
  | nil => simp
  | cons c cs =>
    rw [Bool.and_eq_true, isIdentifierStart_iff, List.all_eq_true, List.forall_mem_cons]
    constructor
    · rintro ⟨⟨part, start⟩, parts⟩
      exact ⟨⟨part, parts⟩, c, cs, rfl, start⟩
    · rintro ⟨⟨part, parts⟩, _, _, same, start⟩
      cases same
      exact ⟨⟨part, start⟩, parts⟩

theorem isIdentifier_safeName (name : String) : isIdentifier (safeName name) = isIdentifier name := by
  unfold safeName isReserved
  split
  · next reserved =>
    rw [decide_eq_true_eq] at reserved
    rw [List.mem_singleton.1 reserved]
    decide
  · rfl

/-! ## Words -/

section

variable {change : Char → List Char} {inside : List Char}

/-- Which characters have a case that can stand in an identifier. -/
theorem forall_change_iff (h : ChangesCase change inside) (c : Char) :
    (∀ d ∈ change c, isIdentifierPart d = true) ↔ isIdentifierPart c = true ∨ c ∈ inside := by
  constructor
  · intro parts
    cases start : isOutside c with
    | false =>
      obtain ⟨d, single, kept⟩ := h.ascii c start
      rcases kept with ⟨-, letter⟩ | same
      · exact .inl (part_of_isAlpha letter)
      · exact .inl (same ▸ parts d (single ▸ List.mem_cons_self))
    | true =>
      refine .inr (Decidable.byContradiction fun apart => ?_)
      obtain ⟨d, mem, outside⟩ := h.remains c start apart
      rw [inside_of_part (parts d mem)] at outside
      cases outside
  · rintro (part | listed) d mem
    · obtain ⟨e, single, kept⟩ := h.ascii c (inside_of_part part)
      rw [single] at mem
      rw [List.mem_singleton.1 mem]
      rcases kept with ⟨letter, -⟩ | same
      · exact part_of_isAlpha letter
      · exact same ▸ part
    · exact part_of_isAlpha ((h.enters c listed).2.2 d mem)

/-- A change of case neither makes nor removes digits. -/
theorem exists_change (h : ChangesCase change inside) (c : Char) :
    ∃ d ds, change c = d :: ds ∧ d.isDigit = c.isDigit := by
  cases start : isOutside c with
  | false =>
    obtain ⟨d, single, kept⟩ := h.ascii c start
    refine ⟨d, [], single, ?_⟩
    rcases kept with ⟨letter, letter'⟩ | same
    · rw [not_isDigit_of_isAlpha letter, not_isDigit_of_isAlpha letter']
    · rw [same]
  | true =>
    obtain ⟨d, ds, whole⟩ := List.exists_cons_of_ne_nil (h.ne_nil c)
    have none {c : Char} (outside : isOutside c = true) : c.isDigit = false := by
      rw [← Bool.not_eq_true]
      intro digit
      rw [inside_of_isDigit digit] at outside
      cases outside
    refine ⟨d, ds, whole, ?_⟩
    rw [none start]
    rcases h.image c d start (whole ▸ List.mem_cons_self) with outside | letter
    · exact none outside
    · exact not_isDigit_of_isAlpha letter

end

theorem exists_first_iff {change : Char → List Char} {inside : List Char}
    (h : ChangesCase change inside) (c : Char) (more : List Char) :
    (∃ d ds, change c ++ more = d :: ds ∧ d.isDigit = false) ↔ c.isDigit = false := by
  obtain ⟨d, ds, whole, digit⟩ := exists_change h c
  rw [whole, List.cons_append, ← digit]
  constructor
  · rintro ⟨_, _, same, none⟩
    cases same
    exact none
  · exact fun none => ⟨d, _, rfl, none⟩

/-- Whether a word can stand in an identifier once the case of its first letter is changed, if that
takes these characters into ASCII. -/
def fits (inside : List Char) : List Char → Bool
  | [] => true
  | c :: cs => (isIdentifierPart c || inside.contains c) && cs.all isIdentifierPart

theorem forall_first_iff {change : Char → List Char} {inside : List Char}
    (h : ChangesCase change inside) (c : Char) (cs : List Char) :
    (∀ d ∈ change c ++ cs, isIdentifierPart d = true) ↔ fits inside (c :: cs) = true := by
  rw [List.forall_mem_append, forall_change_iff h, fits, Bool.and_eq_true, Bool.or_eq_true,
    List.contains_iff_mem, List.all_eq_true]

theorem forall_capitalize_iff (word : List Char) :
    (∀ d ∈ capitalize word, isIdentifierPart d = true) ↔ fits upperInside word = true := by
  cases word with
  | nil => simp [capitalize, fits]
  | cons c cs => exact forall_first_iff Text.changesCase_upper c cs

theorem forall_decapitalize_iff (word : List Char) :
    (∀ d ∈ decapitalize word, isIdentifierPart d = true) ↔ fits lowerInside word = true := by
  cases word with
  | nil => simp [decapitalize, fits]
  | cons c cs => exact forall_first_iff Text.changesCase_lower c cs

theorem forall_flatMap_capitalize_iff (parts : List (List Char)) :
    (∀ d ∈ parts.flatMap capitalize, isIdentifierPart d = true) ↔
      parts.all (fits upperInside) = true := by
  simp only [List.mem_flatMap, forall_exists_index, and_imp, List.all_eq_true,
    ← forall_capitalize_iff]
  exact ⟨fun all word mem d there => all d word mem there,
    fun all d word mem there => all word mem d there⟩

/-- Whether the first word starts with a digit. -/
def startsWithDigit (parts : List (List Char)) : Bool :=
  match parts with
  | (c :: _) :: _ => c.isDigit
  | _ => false

/-- Whether the types of a command with this name are called by identifiers. -/
def namesTypes (name : String) : Bool :=
  (words name.toList).all (fits upperInside) && !startsWithDigit (words name.toList)

/-- Whether the method of a command with this name is called by an identifier. -/
def namesMethod (name : String) : Bool :=
  match words name.toList with
  | [] => false
  | first :: rest =>
    fits lowerInside first && rest.all (fits upperInside) && !startsWithDigit (first :: rest)

theorem exists_cons_of_words {name : String} {first : List Char} {rest : List (List Char)}
    (parts : words name.toList = first :: rest) : ∃ c cs, first = c :: cs :=
  List.exists_cons_of_ne_nil (Text.mem_words (parts ▸ List.mem_cons_self)).1

theorem isIdentifier_methodName (name : String) :
    isIdentifier (methodName name) = namesMethod name := by
  rw [methodName, isIdentifier_safeName, Bool.eq_iff_iff, isIdentifier_iff]
  unfold camelCase namesMethod
  cases parts : words name.toList with
  | nil => simp
  | cons first rest =>
    obtain ⟨c, cs, rfl⟩ := exists_cons_of_words parts
    rw [String.toList_ofList, List.forall_mem_append, forall_decapitalize_iff,
      forall_flatMap_capitalize_iff, decapitalize, List.append_assoc,
      exists_first_iff Text.changesCase_lower]
    simp only [Bool.and_eq_true, Bool.not_eq_true', startsWithDigit]

/-- A type's name is an identifier if the words before its last, which is one, are. -/
theorem isIdentifier_pascalCase_append (name : String) {last : String}
    (ends : isIdentifier last = true) :
    isIdentifier (pascalCase name ++ last) = namesTypes name := by
  obtain ⟨own, head⟩ := (isIdentifier_iff last).1 ends
  rw [Bool.eq_iff_iff, isIdentifier_iff]
  unfold pascalCase namesTypes
  rw [String.toList_append, String.toList_ofList, List.forall_mem_append, and_iff_left own,
    forall_flatMap_capitalize_iff, Bool.and_eq_true, Bool.not_eq_true']
  refine and_congr_right fun _ => ?_
  cases parts : words name.toList with
  | nil => simpa [startsWithDigit] using head
  | cons first rest =>
    obtain ⟨c, cs, rfl⟩ := exists_cons_of_words parts
    rw [List.flatMap_cons, capitalize, List.append_assoc, List.append_assoc,
      exists_first_iff Text.changesCase_upper, startsWithDigit]

theorem isIdentifier_requestName (name : String) :
    isIdentifier (requestName name) = namesTypes name :=
  isIdentifier_pascalCase_append name (by decide)

theorem isIdentifier_responseName (name : String) :
    isIdentifier (responseName name) = namesTypes name :=
  isIdentifier_pascalCase_append name (by decide)

example : namesMethod "dev-forget_channel" = true ∧ namesMethod "2fa" = false := by decide

end Bindery.TypeScript
