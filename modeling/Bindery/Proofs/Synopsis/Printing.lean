import Bindery.Proofs.Synopsis.Lexing
import Mathlib.Data.List.Chain

/-!
# Printing tokens

What a line is read as can be printed again: the marks of parameters and, if one likes, brackets with
a backslash in front, and texts with every backslash doubled. The lexer gives back what was printed.
Only texts need care: an empty one leaves no trace, two in a row become one, and one with a character
of a mark is taken for the mark.
-/

namespace Bindery.Synopsis
set_option autoImplicit false

/-- A mark as it is printed. A bracket may stand without a backslash. -/
def Mark.printed (plain : Bool) : Mark → List Char
  | .name => ['*', '*']
  | .parameter => ['\\', '*']
  | .optionalOpen => if plain then ['['] else ['\\', '[']
  | .optionalClose => if plain then [']'] else ['\\', ']']

/-- A token as it is printed. -/
def TokenKind.printed (plain : Bool) : TokenKind → List Char
  | .mark m => m.printed plain
  | .text content => escaped content

/-- Tokens as they are printed one behind the other. Whether a bracket stands without a backslash is
asked for each position among the tokens. -/
def printed (plain : Nat → Bool) : List TokenKind → List Char
  | [] => []
  | kind :: kinds => kind.printed (plain 0) ++ printed (fun i => plain (i + 1)) kinds

/-- Whether this is a text. -/
def TokenKind.isText : TokenKind → Bool
  | .text _ => true
  | .mark _ => false

/-- The tokens can be told apart when they are printed. -/
structure Printable (kinds : List TokenKind) : Prop where
  texts : ∀ content, .text content ∈ kinds → content ≠ [] ∧ Unmarked content
  separated : kinds.IsChain fun first second => first.isText = false ∨ second.isText = false

variable {kind : TokenKind} {kinds : List TokenKind}

theorem Printable.tail (h : Printable (kind :: kinds)) : Printable kinds :=
  ⟨fun content mem => h.texts content (List.mem_cons_of_mem kind mem), h.separated.tail⟩

/-- A mark is read as itself, whatever follows it. -/
theorem kindsOf_mark (m : Mark) (plain : Bool) (rest : List Char) :
    kindsOf (m.printed plain ++ rest) = .mark m :: kindsOf rest := by
  cases m with
  | name => exact kindsOf_name
  | parameter => exact kindsOfLexemes_mark .parameter 2
  | optionalOpen =>
    cases plain with
    | false => exact kindsOf_opening
    | true => exact kindsOfLexemes_mark .optionalOpen 1
  | optionalClose =>
    cases plain with
    | false => exact kindsOf_closing
    | true => exact kindsOfLexemes_mark .optionalClose 1

/-- A text ends in front of every mark, also where it ends in a backslash itself. -/
theorem ends_mark (m : Mark) (plain : Bool) (rest : List Char) :
    Ends (m.printed plain ++ rest) := by
  cases m with
  | name => exact ends_star _
  | parameter => exact Or.inr ⟨.parameter, 2, _, rfl⟩
  | optionalOpen =>
    cases plain with
    | false => exact ends_opening rest
    | true => exact Or.inr ⟨.optionalOpen, 1, _, rfl⟩
  | optionalClose =>
    cases plain with
    | false => exact Or.inr ⟨.optionalClose, 2, _, rfl⟩
    | true => exact Or.inr ⟨.optionalClose, 1, _, rfl⟩

/-- As no text follows another, a text ends where the next token is printed. -/
theorem Printable.ends {content : List Char} (h : Printable (.text content :: kinds))
    (plain : Nat → Bool) : Ends (printed plain kinds) := by
  cases kinds with
  | nil => exact Or.inl rfl
  | cons next kinds =>
    cases next with
    | mark m => exact ends_mark m (plain 0) _
    | text other =>
      rcases List.rel_of_isChain_cons_cons h.separated with first | second
      · cases first
      · cases second

/-- **Lexing undoes printing**, whichever brackets are printed without a backslash. -/
theorem tokenize_printed (h : Printable kinds) (plain : Nat → Bool) :
    (tokenize (printed plain kinds)).map (·.kind) = kinds := by
  rw [kinds_tokenize]
  induction kinds generalizing plain with
  | nil => rfl
  | cons kind kinds ih =>
    have behind := ih h.tail fun i => plain (i + 1)
    cases kind with
    | mark m => rw [printed, TokenKind.printed, kindsOf_mark, behind]
    | text content =>
      obtain ⟨some, unmarked⟩ := h.texts content List.mem_cons_self
      rw [printed, TokenKind.printed, kindsOf_escaped unmarked some (h.ends _), behind]

/-- Texts that end in a backslash, in front of each kind of mark, and marks that share their stars. -/
theorem tokenize_printed_backslashes :
    let kinds : List TokenKind := [.text ['a', '\\'], .mark .name, .mark .parameter, .mark .name,
      .text ['\\'], .mark .parameter, .text ['\\', '\\'], .mark .optionalOpen, .text ['\\'],
      .mark .optionalClose, .mark .optionalOpen]
    let line := printed (fun i => i == 7 || i == 10) kinds
    Printable kinds ∧ String.ofList line = "a\\\\**\\***\\\\\\*\\\\\\\\[\\\\\\][" ∧
      (tokenize line).map (·.kind) = kinds := by
  intro kinds line
  have printable : Printable kinds := ⟨by simp [kinds, Unmarked], by simp [kinds, TokenKind.isText]⟩
  exact ⟨printable, by decide, tokenize_printed printable _⟩

end Bindery.Synopsis
