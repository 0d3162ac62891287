import Bindery.Proofs.Synopsis.Tokens

/-!
# Lexing what was written

A text is written with every backslash doubled, and the lexer gives it back. Where a token stands
does not matter here: `kindsOf` is what a line is read as, its spans left out.
-/

namespace Bindery.Synopsis
set_option autoImplicit false

open Bindery.Text (Span)

/-- A text with every backslash doubled. -/
def escaped (text : List Char) : List Char :=
  text.flatMap fun c => if c = '\\' then ['\\', '\\'] else [c]

/-- Whether a text can be written without a mark in it. -/
def Unmarked (text : List Char) : Prop :=
  '*' ∉ text ∧ '[' ∉ text ∧ ']' ∉ text

instance (text : List Char) : Decidable (Unmarked text) :=
  inferInstanceAs (Decidable ('*' ∉ text ∧ '[' ∉ text ∧ ']' ∉ text))

/-- The lexeme of a character in an escaped text. -/
def escapedLexeme (c : Char) : Lexeme :=
  .literal c (if c = '\\' then 1 + c.utf8Size else c.utf8Size)

/-! ## Scanning -/

section Scan

variable {text rest : List Char} {c : Char}

theorem scan_cons_plain (backslash : c ≠ '\\') (star : c ≠ '*') (opening : c ≠ '[')
    (closing : c ≠ ']') : Lexeme.scan (c :: rest) = .literal c c.utf8Size :: Lexeme.scan rest := by
  rw [Lexeme.scan] <;> simp_all

/-- A star that is not followed by another opens or closes a parameter. -/
theorem scan_star (single : rest.head? ≠ some '*') :
    Lexeme.scan ('*' :: rest) = .mark .parameter 1 :: Lexeme.scan rest := by
  rw [Lexeme.scan]
  rintro more rfl
  exact single rfl

theorem unmarked_cons : Unmarked (c :: text) ↔ c ≠ '*' ∧ c ≠ '[' ∧ c ≠ ']' ∧ Unmarked text := by
  simp only [Unmarked, List.mem_cons, not_or]
  grind

/-- An escaped text is scanned as its characters, whatever follows it. -/
theorem scan_escaped (unmarked : Unmarked text) :
    Lexeme.scan (escaped text ++ rest) = text.map escapedLexeme ++ Lexeme.scan rest := by
  induction text with
  | nil => rfl
  | cons c text ih =>
    obtain ⟨star, opening, closing, unmarked⟩ := unmarked_cons.1 unmarked
    have ih := ih unmarked
    unfold escaped at ih ⊢
    rw [List.flatMap_cons, List.append_assoc, List.map_cons, List.cons_append, ← ih]
    by_cases backslash : c = '\\'
    · subst backslash
      rfl
    · rw [if_neg backslash, List.singleton_append, scan_cons_plain backslash star opening closing]
      simp [escapedLexeme, backslash]

end Scan

/-! ## Joining -/

/-- What lexemes are joined to. -/
def kindsOfLexemes (lexemes : List Lexeme) : List TokenKind :=
  (Token.ofLexemes 0 lexemes).map (·.kind)

/-- A character in front of what a line is read as. -/
def prependKind (c : Char) : List TokenKind → List TokenKind
  | .text content :: kinds => .text (c :: content) :: kinds
  | kinds => .text [c] :: kinds

theorem kinds_prependLiteral (c : Char) (span : Span) (tokens : List Token) :
    (Token.prependLiteral c span tokens).map (·.kind) = prependKind c (tokens.map (·.kind)) := by
  cases tokens with
  | nil => rfl
  | cons token tokens =>
    obtain ⟨mark | content, _⟩ := token
    · rfl
    · rfl

/-- Tokens are of the same kinds wherever the line starts. -/
theorem kinds_ofLexemes (pos : Nat) (lexemes : List Lexeme) :
    (Token.ofLexemes pos lexemes).map (·.kind) = kindsOfLexemes lexemes := by
  unfold kindsOfLexemes
  suffices any : ∀ pos other : Nat, (Token.ofLexemes pos lexemes).map (·.kind) =
      (Token.ofLexemes other lexemes).map (·.kind) from any pos 0
  intro pos other
  fun_induction Token.ofLexemes pos lexemes generalizing other with
  | case1 => rfl
  | case2 pos mark width rest ih => simp [Token.ofLexemes, ih (other + width)]
  | case3 pos c width rest => simp [Token.ofLexemes]
  | case4 pos c width rest more ih =>
    rw [Token.ofLexemes]
    · rw [kinds_prependLiteral, kinds_prependLiteral, ih (other + width)]
    · exact more
  | case5 pos rest ih =>
    rw [Token.ofLexemes]
    exact ih (other + 1)

section Join

variable {lexemes : List Lexeme} {text : List Char}

theorem kindsOfLexemes_mark (mark : Mark) (width : Nat) :
    kindsOfLexemes (.mark mark width :: lexemes) = .mark mark :: kindsOfLexemes lexemes := by
  rw [kindsOfLexemes, Token.ofLexemes, List.map_cons, kinds_ofLexemes]

/-- Lexemes in front of which a text ends: there are none, or they start with a mark. -/
def EndsText (lexemes : List Lexeme) : Prop :=
  lexemes = [] ∨ ∃ mark width rest, lexemes = .mark mark width :: rest

theorem kindsOfLexemes_literal {c : Char} {width : Nat} (more : ∀ rest, lexemes ≠ .dangling :: rest) :
    kindsOfLexemes (.literal c width :: lexemes) = prependKind c (kindsOfLexemes lexemes) := by
  rw [kindsOfLexemes, Token.ofLexemes]
  · rw [kinds_prependLiteral, kinds_ofLexemes]
  · exact more

/-- Characters up to the next mark are one text. -/
theorem kindsOfLexemes_text (some : text ≠ []) (ends : EndsText lexemes) :
    kindsOfLexemes (text.map escapedLexeme ++ lexemes) = .text text :: kindsOfLexemes lexemes := by
  induction text with
  | nil => exact absurd rfl some
  | cons c text ih =>
    rw [List.map_cons, List.cons_append, escapedLexeme]
    cases text with
    | nil =>
      rcases ends with rfl | ⟨mark, width, rest, rfl⟩
      · rw [List.map_nil, List.append_nil, kindsOfLexemes_literal (by simp)]
        rfl
      · rw [List.map_nil, List.nil_append, kindsOfLexemes_literal (by simp), kindsOfLexemes_mark]
        rfl
    | cons c' text =>
      rw [kindsOfLexemes_literal (by simp [escapedLexeme]), ih (by simp)]
      rfl

end Join

/-! ## Lines -/

/-- What a line is read as: the kinds of its tokens. -/
def kindsOf (line : List Char) : List TokenKind :=
  kindsOfLexemes (Lexeme.scan line)

theorem kinds_tokenize (line : List Char) : (tokenize line).map (·.kind) = kindsOf line :=
  rfl

/-- Whether a text ends in front of this: at the end of a line, or at a mark. -/
def Ends (rest : List Char) : Prop :=
  EndsText (Lexeme.scan rest)

section Line

variable {rest text : List Char}

theorem ends_star (rest : List Char) : Ends ('*' :: rest) := by
  by_cases double : rest.head? = some '*'
  · cases rest with
    | nil => cases double
    | cons c rest =>
      cases double
      exact Or.inr ⟨.name, 2, _, rfl⟩
  · exact Or.inr ⟨.parameter, 1, _, scan_star double⟩

theorem ends_opening (rest : List Char) : Ends ('\\' :: '[' :: rest) :=
  Or.inr ⟨.optionalOpen, 2, _, rfl⟩

theorem kindsOf_name : kindsOf ('*' :: '*' :: rest) = .mark .name :: kindsOf rest :=
  kindsOfLexemes_mark .name 2

theorem kindsOf_star (single : rest.head? ≠ some '*') :
    kindsOf ('*' :: rest) = .mark .parameter :: kindsOf rest := by
  rw [kindsOf, scan_star single, kindsOfLexemes_mark]
  rfl

theorem kindsOf_opening : kindsOf ('\\' :: '[' :: rest) = .mark .optionalOpen :: kindsOf rest :=
  kindsOfLexemes_mark .optionalOpen 2

theorem kindsOf_closing : kindsOf ('\\' :: ']' :: rest) = .mark .optionalClose :: kindsOf rest :=
  kindsOfLexemes_mark .optionalClose 2

/-- **An escaped text is read as itself.** -/
theorem kindsOf_escaped (unmarked : Unmarked text) (some : text ≠ []) (ends : Ends rest) :
    kindsOf (escaped text ++ rest) = .text text :: kindsOf rest := by
  rw [kindsOf, scan_escaped unmarked, kindsOfLexemes_text some ends]
  rfl

theorem kindsOf_space (ends : Ends rest) : kindsOf (' ' :: rest) = .text [' '] :: kindsOf rest := by
  have unmarked : Unmarked [' '] := by simp [Unmarked]
  exact kindsOf_escaped unmarked (List.cons_ne_nil _ _) ends

end Line

end Bindery.Synopsis
