import Bindery.Proofs.Synopsis.Lexing
import Bindery.Proofs.Text.Boundaries

/-!
# Tokens cover their line

Every token stands over the characters that spell it: a mark over one of its spellings, a text over
its content with the escapes still in it. One behind the other the tokens make up the line. Only a
backslash at the very end can be left over, and only where there is no text for it to end.
-/

namespace Bindery.Synopsis
set_option autoImplicit false

open Bindery.Text (Span byteLength)

/-! ## Spellings -/

/-- The ways to write a mark. -/
def Mark.spellings : Mark → List (List Char)
  | .name => [['*', '*']]
  | .parameter => [['*'], ['\\', '*']]
  | .optionalOpen => [['['], ['\\', '[']]
  | .optionalClose => [[']'], ['\\', ']']]

/-- A text with every escape replaced by the escaped character. A backslash with nothing behind it is
left out. -/
def unescaped : List Char → List Char
  | [] => []
  | ['\\'] => []
  | '\\' :: c :: cs => c :: unescaped cs
  | c :: cs => c :: unescaped cs

/-- The characters are a way to write a token of the kind. -/
def TokenKind.Spelled : TokenKind → List Char → Prop
  | .mark m, chars => chars ∈ m.spellings
  | .text content, chars => content ≠ [] ∧ Unmarked content ∧ content = unescaped chars

/-- The spans lie one behind the other, none of them empty, and lead from one position to another. -/
def Tiles (start : Nat) : List Span → Nat → Prop
  | [], stop => start = stop
  | span :: spans, stop => span.start = start ∧ span.start < span.stop ∧ Tiles span.stop spans stop

/-- Where some spans end the others begin. -/
theorem tiles_append {start stop : Nat} {spans more : List Span} :
    Tiles start (spans ++ more) stop ↔ ∃ mid, Tiles start spans mid ∧ Tiles mid more stop := by
  induction spans generalizing start with
  | nil => simp [Tiles]
  | cons span spans ih => simp [Tiles, ih, and_assoc]

/-- A character that no mark can be written without. -/
def isMarkChar (c : Char) : Bool :=
  c == '*' || c == '[' || c == ']'

/-- Whether a line ends in a backslash that is in no token. Nothing stands in front of it, or a mark
does, which is known by its last character. -/
def endsLoose (line : List Char) : Bool :=
  match line.reverse with
  | '\\' :: before => before.head?.all isMarkChar
  | _ => false

/-- What a line ends in that is in no token. -/
def looseEnd (line : List Char) : List Char :=
  if endsLoose line then ['\\'] else []

/-- How a character of a text can be written: with a backslash, or as it is. -/
def Literal (c : Char) (chars : List Char) : Prop :=
  Unmarked [c] ∧ (chars = ['\\', c] ∨ chars = [c] ∧ c ≠ '\\')

section Spelling

variable {c : Char} {chars cs : List Char} {mark : Mark}

theorem unmarked_append {xs ys : List Char} : Unmarked (xs ++ ys) ↔ Unmarked xs ∧ Unmarked ys := by
  simp only [Unmarked, List.mem_append, not_or]
  grind

theorem isMarkChar_eq_false : isMarkChar c = false ↔ Unmarked [c] := by
  rw [unmarked_cons]
  simp [isMarkChar, Unmarked, and_assoc]

theorem endsLoose_snoc : endsLoose (cs ++ [c]) = (c == '\\' && cs.getLast?.all isMarkChar) := by
  unfold endsLoose
  rw [List.reverse_append, List.reverse_singleton, List.singleton_append]
  by_cases backslash : c = '\\'
  · subst backslash
    simp
  · simp [backslash]

/-- What a line ends in does not depend on what stands in front, unless a backslash is alone there. -/
theorem looseEnd_append (closed : endsLoose chars = false)
    (marked : cs = ['\\'] → chars.getLast?.all isMarkChar = true) :
    looseEnd (chars ++ cs) = looseEnd cs := by
  unfold looseEnd
  rcases List.eq_nil_or_concat cs with rfl | ⟨front, c, rfl⟩
  · rw [List.append_nil, closed]
    rfl
  · rw [List.concat_eq_append, ← List.append_assoc, endsLoose_snoc, endsLoose_snoc,
      List.getLast?_append]
    rcases List.eq_nil_or_concat front with rfl | ⟨front, d, rfl⟩
    · by_cases backslash : c = '\\'
      · subst backslash
        simp [marked rfl]
      · simp [backslash]
    · simp

theorem looseEnd_mark (spelled : chars ∈ mark.spellings) :
    looseEnd (chars ++ cs) = looseEnd cs := by
  have each : ∀ mark : Mark, ∀ chars ∈ mark.spellings,
      endsLoose chars = false ∧ chars.getLast?.all isMarkChar = true := by
    intro mark
    cases mark <;> decide
  obtain ⟨closed, marked⟩ := each mark chars spelled
  exact looseEnd_append closed fun _ => marked

namespace Literal

theorem last (h : Literal c chars) : chars.getLast? = some c := by
  obtain ⟨-, rfl | ⟨rfl, -⟩⟩ := h
  · rfl
  · rfl

theorem looseEnd (h : Literal c chars) (other : cs ≠ ['\\']) :
    Synopsis.looseEnd (chars ++ cs) = Synopsis.looseEnd cs := by
  refine looseEnd_append ?_ fun same => absurd same other
  obtain ⟨plain, rfl | ⟨rfl, backslash⟩⟩ := h
  · rw [← List.singleton_append, endsLoose_snoc]
    simp [isMarkChar]
  · rw [← List.nil_append [c], endsLoose_snoc]
    simp [backslash]

theorem looseEnd_backslash (h : Literal c chars) :
    Synopsis.looseEnd (chars ++ ['\\']) = [] := by
  unfold Synopsis.looseEnd
  rw [endsLoose_snoc, h.last, Option.all_some, isMarkChar_eq_false.2 h.1]
  rfl

theorem unescaped_append (h : Literal c chars) (cs : List Char) :
    unescaped (chars ++ cs) = c :: unescaped cs := by
  obtain ⟨-, rfl | ⟨rfl, backslash⟩⟩ := h
  · rfl
  · rw [List.singleton_append, unescaped]
    · exact fun same => absurd same backslash
    · exact fun _ _ same => absurd same backslash

/-- In front of a text, a character makes it longer. -/
theorem spelled {content : List Char} (h : Literal c chars)
    (behind : content = unescaped cs ∧ Unmarked content) :
    (TokenKind.text (c :: content)).Spelled (chars ++ cs) := by
  refine ⟨List.cons_ne_nil _ _, ?_, ?_⟩
  · exact unmarked_append.2 ⟨h.1, behind.2⟩
  · rw [h.unescaped_append, behind.1]

end Literal

end Spelling

/-! ## Tokens over their characters -/

/-- The tokens of a text that starts at byte `pos`, each over the characters that spell it. -/
inductive Laid : Nat → List Char → List Token → Prop
  | done (pos : Nat) : Laid pos [] []
  | token {pos : Nat} {kind : TokenKind} {chars rest : List Char} {tokens : List Token}
      (some : chars ≠ []) (spelled : kind.Spelled chars)
      (behind : Laid (pos + byteLength chars) rest tokens) :
      Laid pos (chars ++ rest) (⟨kind, ⟨pos, pos + byteLength chars⟩⟩ :: tokens)

namespace Laid

variable {pos : Nat} {c : Char} {chars covered : List Char} {tokens : List Token}

theorem tiles (h : Laid pos covered tokens) :
    Tiles pos (tokens.map (·.span)) (pos + byteLength covered) := by
  induction h with
  | done pos => rfl
  | @token pos kind chars rest tokens some spelled behind ih =>
    have filled : 0 < byteLength chars :=
      Nat.pos_of_ne_zero fun none => some (Text.byteLength_eq_zero.1 none)
    rw [Text.byteLength_append, ← Nat.add_assoc]
    exact ⟨rfl, Nat.lt_add_of_pos_right filled, ih⟩

/-- Every token is spelled by the characters at its span. -/
theorem spelled (h : Laid pos covered tokens) (front back : List Char)
    (here : byteLength front = pos) :
    ∀ token ∈ tokens, ∃ chars, Text.slice? (front ++ (covered ++ back)) token.span = some chars ∧
      token.kind.Spelled chars := by
  induction h generalizing front with
  | done pos => simp
  | @token pos kind chars rest tokens some spelled behind ih =>
    intro token mem
    rcases List.mem_cons.1 mem with rfl | mem
    · refine ⟨chars, Text.slice?_eq_some_iff.2 ⟨front, rest ++ back, ?_, here.symm, ?_⟩, spelled⟩
      · rw [List.append_assoc]
      · rw [here]
    · have next : byteLength (front ++ chars) = pos + byteLength chars := by
        rw [Text.byteLength_append, here]
      have found := ih (front ++ chars) next token mem
      rwa [List.append_assoc, ← List.append_assoc chars] at found

/-- A character in front of laid tokens. -/
theorem prependLiteral (h : Laid (pos + byteLength chars) covered tokens)
    (literal : Literal c chars) :
    Laid pos (chars ++ covered)
      (Token.prependLiteral c ⟨pos, pos + byteLength chars⟩ tokens) := by
  have some : chars ≠ [] := fun none => by simpa [none] using literal.last
  have alone : (TokenKind.text [c]).Spelled chars := by
    have spelled : (TokenKind.text [c]).Spelled (chars ++ []) :=
      literal.spelled ⟨rfl, by simp [Unmarked]⟩
    rwa [List.append_nil] at spelled
  cases h with
  | done => exact .token some alone (.done _)
  | @token _ kind chars' rest tokens some' spelled behind =>
    cases kind with
    | mark mark => exact .token some alone (.token some' spelled behind)
    | text content =>
      rw [Nat.add_assoc, ← Text.byteLength_append] at behind ⊢
      rw [← List.append_assoc]
      exact .token (fun none => some (List.append_eq_nil_iff.1 none).1)
        (literal.spelled ⟨spelled.2.2, spelled.2.1⟩) behind

end Laid

/-- The tokens are laid over all of a line that starts at byte `pos` but its loose end. -/
def Covers (pos : Nat) (line : List Char) (tokens : List Token) : Prop :=
  ∃ covered, line = covered ++ looseEnd line ∧ Laid pos covered tokens

section Covering

variable {pos : Nat} {c : Char} {chars cs : List Char} {tokens : List Token}

theorem Covers.mark (m : Mark) (chars : List Char) (spelled : chars ∈ m.spellings)
    (h : Covers (pos + byteLength chars) cs tokens) :
    Covers pos (chars ++ cs) (⟨.mark m, ⟨pos, pos + byteLength chars⟩⟩ :: tokens) := by
  obtain ⟨covered, whole, laid⟩ := h
  have some : chars ≠ [] := by
    rintro rfl
    cases m <;> simp [Mark.spellings] at spelled
  refine ⟨chars ++ covered, ?_, .token some spelled laid⟩
  rw [looseEnd_mark spelled, List.append_assoc, ← whole]

theorem scan_eq_dangling {more : List Lexeme} (h : Lexeme.scan cs = .dangling :: more) :
    cs = ['\\'] := by
  fun_cases Lexeme.scan cs <;> simp_all [Lexeme.scan]

theorem Covers.literal
    (h : Covers (pos + byteLength chars) cs
      (Token.ofLexemes (pos + byteLength chars) (Lexeme.scan cs)))
    (literal : Literal c chars) :
    Covers pos (chars ++ cs)
      (Token.ofLexemes pos (.literal c (byteLength chars) :: Lexeme.scan cs)) := by
  by_cases last : cs = ['\\']
  · -- the backslash ends the text that has begun
    subst last
    have spelled : (TokenKind.text [c]).Spelled (chars ++ ['\\']) :=
      literal.spelled ⟨rfl, by simp [Unmarked]⟩
    refine ⟨chars ++ ['\\'], ?_, ?_⟩
    · rw [literal.looseEnd_backslash, List.append_nil]
    · have laid := Laid.token (by simp) spelled (.done (pos + byteLength (chars ++ ['\\'])))
      rwa [List.append_nil, Text.byteLength_append, ← Nat.add_assoc] at laid
  · obtain ⟨covered, whole, laid⟩ := h
    refine ⟨chars ++ covered, ?_, ?_⟩
    · rw [literal.looseEnd last, List.append_assoc, ← whole]
    · rw [Token.ofLexemes]
      · exact laid.prependLiteral literal
      · exact fun more dangling => last (scan_eq_dangling dangling)

/-- The lexer covers every line. One case for each rule of `Lexeme.scan`. -/
theorem covers_ofLexemes (pos : Nat) (line : List Char) :
    Covers pos line (Token.ofLexemes pos (Lexeme.scan line)) := by
  fun_induction Lexeme.scan line generalizing pos with
  | case1 => exact ⟨[], rfl, .done pos⟩
  | case2 cs ih => exact Covers.mark .parameter ['\\', '*'] (by decide) (ih _)
  | case3 cs ih => exact Covers.mark .optionalOpen ['\\', '['] (by decide) (ih _)
  | case4 cs ih => exact Covers.mark .optionalClose ['\\', ']'] (by decide) (ih _)
  | case5 c cs star opening closing ih =>
    have literal : Literal c ['\\', c] :=
      ⟨unmarked_cons.2 ⟨star, opening, closing, by simp [Unmarked]⟩, Or.inl rfl⟩
    exact Covers.literal (ih _) literal
  | case6 => exact ⟨[], rfl, .done pos⟩
  | case7 cs ih => exact Covers.mark .name ['*', '*'] (by decide) (ih _)
  | case8 cs single ih => exact Covers.mark .parameter ['*'] (by decide) (ih _)
  | case9 cs ih => exact Covers.mark .optionalOpen ['['] (by decide) (ih _)
  | case10 cs ih => exact Covers.mark .optionalClose [']'] (by decide) (ih _)
  | case11 c cs _ _ _ escape dangling _ star opening closing ih =>
    have backslash : c ≠ '\\' := fun same => by
      cases cs with
      | nil => exact dangling same rfl
      | cons d cs => exact escape d cs same rfl
    have literal : Literal c [c] :=
      ⟨unmarked_cons.2 ⟨star, opening, closing, by simp [Unmarked]⟩, Or.inr ⟨rfl, backslash⟩⟩
    exact Covers.literal (ih _) literal

/-- The tokens of a line make up all of it but its loose end. -/
theorem tiles_tokenize (line : List Char) : ∃ covered, line = covered ++ looseEnd line ∧
    Tiles 0 ((tokenize line).map (·.span)) (byteLength covered) := by
  obtain ⟨covered, whole, laid⟩ := covers_ofLexemes 0 line
  have tiles := laid.tiles
  rw [Nat.zero_add] at tiles
  exact ⟨covered, whole, tiles⟩

/-- Every token of a line stands where it is spelled. -/
theorem spelled_tokenize (line : List Char) : ∀ token ∈ tokenize line, token.span.Within line ∧
    ∃ chars, Text.slice? line token.span = some chars ∧ token.kind.Spelled chars := by
  obtain ⟨covered, whole, laid⟩ := covers_ofLexemes 0 line
  intro token mem
  obtain ⟨chars, found, spelled⟩ := laid.spelled [] (looseEnd line) rfl token mem
  rw [List.nil_append, ← whole] at found
  exact ⟨Text.within_of_slice? found, chars, found, spelled⟩

end Covering

/-- **Tokens cover their line.** Their spans make up the line from its first byte on, one behind the
other and none of them empty. They end where the line ends, or in front of its last backslash if a
mark or nothing stands there. No text follows another. The ends of a span lie between characters. At
the span of a mark stands one of its spellings, and at the span of a text its content with the escapes
still in it; the content is not empty and holds no character of a mark. -/
theorem tokens_tile_line (line : List Char) :
    (∃ covered, line = covered ++ looseEnd line ∧
        Tiles 0 ((tokenize line).map (·.span)) (byteLength covered)) ∧
      Separated (tokenize line) ∧
      ∀ token ∈ tokenize line, token.span.Within line ∧
        ∃ chars, Text.slice? line token.span = some chars ∧ token.kind.Spelled chars :=
  ⟨tiles_tokenize line, separated_tokenize line, spelled_tokenize line⟩

/-- A letter of two bytes, an escape in a text, and a backslash behind a mark. -/
theorem tokens_tile_line_looseEnd :
    let line := "**ü\\_** *\\".toList
    let text : Token := ⟨.text ['ü', '_'], ⟨2, 6⟩⟩
    looseEnd line = ['\\'] ∧
      tokenize line =
        [⟨.mark .name, ⟨0, 2⟩⟩, text, ⟨.mark .name, ⟨6, 8⟩⟩, ⟨.text [' '], ⟨8, 9⟩⟩,
          ⟨.mark .parameter, ⟨9, 10⟩⟩] ∧
      text ∈ tokenize line ∧
      ∃ chars, Text.slice? line text.span = some chars ∧ text.kind.Spelled chars := by
  intro line text
  have tokens : tokenize line =
      [⟨.mark .name, ⟨0, 2⟩⟩, text, ⟨.mark .name, ⟨6, 8⟩⟩, ⟨.text [' '], ⟨8, 9⟩⟩,
        ⟨.mark .parameter, ⟨9, 10⟩⟩] := by decide
  have mem : text ∈ tokenize line := by
    rw [tokens]
    exact List.mem_cons_of_mem _ List.mem_cons_self
  exact ⟨by decide, tokens, mem, ((tokens_tile_line line).2.2 text mem).2⟩

end Bindery.Synopsis
