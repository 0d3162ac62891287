import Bindery.Synopsis.Token
import Mathlib.Data.List.Basic

/-!
# Texts are never cut

The tokens of a line alternate between marks and the texts between them: what stands between two
marks is one text, however many escapes there are in it.
-/

namespace Bindery.Synopsis
set_option autoImplicit false

open Bindery.Text (Span)

/-- Whether a token is a text. -/
def Token.isText (token : Token) : Bool :=
  match token.kind with
  | .text _ => true
  | .mark _ => false

/-- No text follows another. -/
def Separated (tokens : List Token) : Prop :=
  tokens.IsChain fun first second => first.isText = false ∨ second.isText = false

theorem separated_mark {mark : Mark} {span : Span} {tokens : List Token} :
    Separated (⟨.mark mark, span⟩ :: tokens) ↔ Separated tokens := by
  cases tokens with
  | nil => simp [Separated]
  | cons token tokens => simp [Separated, Token.isText]

/-- What follows a text starts with a mark. -/
theorem separated_text {content : List Char} {span : Span} {tokens : List Token} :
    Separated (⟨.text content, span⟩ :: tokens) ↔
      Separated tokens ∧ ∀ token ∈ tokens.head?, token.isText = false := by
  cases tokens with
  | nil => simp [Separated]
  | cons token tokens => simp [Separated, Token.isText, and_comm]

theorem separated_tail {token : Token} {tokens : List Token} (h : Separated (token :: tokens)) :
    Separated tokens := by
  rcases token with ⟨mark | content, span⟩
  · exact separated_mark.1 h
  · exact (separated_text.1 h).1

theorem separated_prependLiteral {c : Char} {span : Span} {tokens : List Token}
    (h : Separated tokens) : Separated (Token.prependLiteral c span tokens) := by
  unfold Token.prependLiteral
  split
  · next content rest tokens =>
    rw [separated_text] at h ⊢
    exact h
  · next other =>
    rw [separated_text]
    refine ⟨h, fun token first => ?_⟩
    cases tokens with
    | nil => cases first
    | cons head tokens =>
      cases first
      rcases token with ⟨mark | content, rest⟩
      · rfl
      · exact absurd rfl (other content rest tokens)

theorem separated_ofLexemes (pos : Nat) (lexemes : List Lexeme) :
    Separated (Token.ofLexemes pos lexemes) := by
  fun_induction Token.ofLexemes pos lexemes with
  | case1 => exact .nil
  | case2 pos mark width rest ih => exact separated_mark.2 ih
  | case3 pos c width rest => exact .singleton _
  | case4 pos c width rest _ ih => exact separated_prependLiteral ih
  | case5 pos rest ih => exact ih

/-- **Texts are never cut**: between two marks of a line there is one text at most. -/
theorem separated_tokenize (line : List Char) : Separated (tokenize line) :=
  separated_ofLexemes 0 (Lexeme.scan line)

end Bindery.Synopsis
