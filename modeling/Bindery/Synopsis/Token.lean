import Bindery.Text.Bytes

/-!
# Tokens of a synopsis line

A synopsis marks the command name with `**`, parameters with `*` and optional groups with brackets.
Manuals are markdown, so a star or bracket may carry a backslash, and a backslash before any other
character stands for that character alone.

The line is cut in two steps. `Lexeme.scan` takes one mark or one character at a time, and
`Token.ofLexemes` joins the characters between two marks into one text.
-/

namespace Bindery.Synopsis
set_option autoImplicit false

open Bindery.Text (Span)

/-- The marks that structure a synopsis. -/
inductive Mark where
  /-- Two stars, around the command name. -/
  | name
  /-- One star, around a parameter. -/
  | parameter
  /-- An opening bracket. -/
  | optionalOpen
  /-- A closing bracket. -/
  | optionalClose
deriving Repr, DecidableEq, Inhabited

/-- The smallest parts of a line, with the number of bytes each takes. -/
inductive Lexeme where
  | mark (mark : Mark) (width : Nat)
  /-- A character meant as itself. -/
  | literal (char : Char) (width : Nat)
  /-- A backslash with nothing behind it. -/
  | dangling
deriving Repr, DecidableEq

/-- The lexemes of a line. -/
def Lexeme.scan : List Char → List Lexeme
  | [] => []
  | '\\' :: '*' :: cs => .mark .parameter 2 :: scan cs
  | '\\' :: '[' :: cs => .mark .optionalOpen 2 :: scan cs
  | '\\' :: ']' :: cs => .mark .optionalClose 2 :: scan cs
  | '\\' :: c :: cs => .literal c (1 + c.utf8Size) :: scan cs
  | '\\' :: [] => [.dangling]
  | '*' :: '*' :: cs => .mark .name 2 :: scan cs
  | '*' :: cs => .mark .parameter 1 :: scan cs
  | '[' :: cs => .mark .optionalOpen 1 :: scan cs
  | ']' :: cs => .mark .optionalClose 1 :: scan cs
  | c :: cs => .literal c c.utf8Size :: scan cs

/-- What a token is: a mark, or the text between two marks with its escapes resolved. -/
inductive TokenKind where
  | mark (mark : Mark)
  | text (content : List Char)
deriving Repr, DecidableEq, Inhabited

/-- A token and the bytes of the line it was read from. -/
structure Token where
  kind : TokenKind
  span : Span
deriving Repr, DecidableEq, Inhabited

namespace Token

/-- Puts a character in front of a line's tokens: into the text they start with, else as a text of
its own. -/
def prependLiteral (c : Char) (span : Span) : List Token → List Token
  | ⟨.text content, rest⟩ :: tokens => ⟨.text (c :: content), span.through rest⟩ :: tokens
  | tokens => ⟨.text [c], span⟩ :: tokens

/-- The tokens of a list of lexemes that starts at byte `pos`. A dangling backslash is counted to
the text it ends and is dropped if it ends none. -/
def ofLexemes (pos : Nat) : List Lexeme → List Token
  | [] => []
  | .mark m width :: rest => ⟨.mark m, ⟨pos, pos + width⟩⟩ :: ofLexemes (pos + width) rest
  | .literal c width :: .dangling :: _ => [⟨.text [c], ⟨pos, pos + width + 1⟩⟩]
  | .literal c width :: rest =>
    prependLiteral c ⟨pos, pos + width⟩ (ofLexemes (pos + width) rest)
  | .dangling :: rest => ofLexemes (pos + 1) rest

end Token

/-- The tokens of a line. Every line has some: only a dangling backslash is ever left out. -/
def tokenize (line : List Char) : List Token :=
  Token.ofLexemes 0 (Lexeme.scan line)

end Bindery.Synopsis
