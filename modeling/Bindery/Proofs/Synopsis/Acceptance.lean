import Bindery.Proofs.Synopsis.Reading
import Bindery.Proofs.Synopsis.Tokens

/-!
# A line is read exactly if the grammar derives it

Where the reader stands inside groups, what it still accepts is an `Ending`: bodies with a closing
bracket between any two of them. `Expects` says the same for every place of the reader, and every
run that ends well has met what its first place expects.
-/

namespace Bindery.Synopsis
set_option autoImplicit false

open Bindery.Text (Span)

variable {p q : Progress} {depth : Nat} {tokens rest : List Token}

/-- What closes some open groups and ends a synopsis. -/
inductive Ending : Nat → List Token → Prop
  | last (b : Body) : Ending 0 b.tokens
  | close {depth : Nat} {rest : List Token} (b : Body) (span : Span) (outer : Ending depth rest) :
      Ending (depth + 1) (b.tokens ++ ⟨.mark .optionalClose, span⟩ :: rest)

namespace Ending

/-- What can be put in front of every body can be put in front of an ending. -/
theorem extend (front : List Token) (add : Body → Body)
    (adds : ∀ b, (add b).tokens = front ++ b.tokens) (h : Ending depth tokens) :
    Ending depth (front ++ tokens) := by
  cases h with
  | last b =>
    rw [← adds]
    exact .last (add b)
  | close b span outer =>
    rw [← List.append_assoc, ← adds]
    exact .close (add b) span outer

theorem text (content : List Char) (span : Span) (h : Ending depth tokens) :
    Ending depth (⟨.text content, span⟩ :: tokens) :=
  h.extend [⟨.text content, span⟩] (.text content span) fun _ => rfl

theorem parameter (label : Label) (h : Ending depth tokens) :
    Ending depth (label.tokens .parameter ++ tokens) :=
  h.extend (label.tokens .parameter) (.parameter label) fun _ => rfl

/-- An opening bracket takes the first closing one, and with it a group is complete. -/
theorem group (opening : Span) (h : Ending (depth + 1) tokens) :
    Ending depth (⟨.mark .optionalOpen, opening⟩ :: tokens) := by
  cases h with
  | close inner closing outer =>
    have whole := outer.extend
      (⟨.mark .optionalOpen, opening⟩ :: (inner.tokens ++ [⟨.mark .optionalClose, closing⟩]))
      (.group opening inner closing) fun b => by simp [Body.tokens]
    simpa using whole

end Ending

/-- A text and where it stands, as a token. -/
def textToken (text : List Char × Span) : Token :=
  ⟨.text text.1, text.2⟩

/-- As texts are never cut, one of them at most stands in front of a mark. -/
theorem texts_before_mark {texts : List (List Char × Span)} {mark : Mark} {span : Span}
    (separated : Separated (texts.map textToken ++ ⟨.mark mark, span⟩ :: rest)) :
    (∃ text : Option (List Char × Span), texts = text.toList) ∧ Separated rest := by
  match texts with
  | [] => exact ⟨⟨none, rfl⟩, separated_tail separated⟩
  | [text] => exact ⟨⟨some text, rfl⟩, separated_tail (separated_tail separated)⟩
  | first :: second :: texts =>
    have alone := (separated_text.1 separated).2 (textToken second) rfl
    cases alone

/-- The rest of a label that has begun with a text, and an ending behind it. -/
def Delimits (mark : Mark) (begun : List Char) (depth : Nat) (tokens : List Token) : Prop :=
  ∃ (texts : List (List Char × Span)) (closing : Span) (rest : List Token),
    tokens = texts.map textToken ++ ⟨.mark mark, closing⟩ :: rest ∧
      Text.allBlank (begun ++ texts.flatMap (·.1)) = false ∧ Ending depth rest

namespace Delimits

variable {mark : Mark} {begun content : List Char} {span : Span}

theorem closed (notBlank : Text.allBlank begun = false) (ending : Ending depth rest) :
    Delimits mark begun depth (⟨.mark mark, span⟩ :: rest) :=
  ⟨[], span, rest, rfl, by simpa using notBlank, ending⟩

theorem text (h : Delimits mark (begun ++ content) depth tokens) :
    Delimits mark begun depth (⟨.text content, span⟩ :: tokens) := by
  obtain ⟨texts, closing, rest, rfl, notBlank, ending⟩ := h
  refine ⟨(content, span) :: texts, closing, rest, rfl, ?_, ending⟩
  rw [List.flatMap_cons, ← List.append_assoc]
  exact notBlank

/-- A label that is not cut is complete with its opening mark. -/
theorem label (h : Delimits mark [] depth tokens) (separated : Separated tokens) (opening : Span) :
    ∃ (label : Label) (rest : List Token),
      ⟨.mark mark, opening⟩ :: tokens = label.tokens mark ++ rest ∧ Ending depth rest := by
  obtain ⟨texts, closing, rest, rfl, notBlank, ending⟩ := h
  obtain ⟨⟨text, rfl⟩, -⟩ := texts_before_mark separated
  cases text with
  | none => simp [Text.allBlank] at notBlank
  | some text =>
    exact ⟨⟨opening, text.1, text.2, closing, by simpa using notBlank⟩, rest, rfl, ending⟩

end Delimits

/-- What the reader expects at a place with some groups open. -/
def Expects (depth : Nat) (tokens : List Token) : Place → Prop
  | .beforeName => ∃ (texts : List (List Char × Span)) (opening : Span) (rest : List Token),
      tokens = texts.map textToken ++ ⟨.mark .name, opening⟩ :: rest ∧ Delimits .name [] depth rest
  | .inName _ begun => Delimits .name begun depth tokens
  | .body => Ending depth tokens
  | .inParameter _ begun => Delimits .parameter begun depth tokens

/-- A run that ends outside all marks and groups has met what was expected where it began. -/
theorem expects_of_reads (reads : Reads p tokens q) (place : q.place = .body) (groups : q.groups = [])
    (separated : Separated tokens) : Expects p.groups.length tokens p.place := by
  induction tokens generalizing p with
  | nil =>
    rw [reads_nil.1 reads, place, groups]
    exact .last .done
  | cons token tokens ih =>
    obtain ⟨r, taken, reads⟩ := reads_cons.1 reads
    have next := ih reads (separated_tail separated)
    obtain ⟨kind, span⟩ := token
    cases here : p.place with
    | beforeName =>
      rcases step_beforeName here taken with ⟨content, rfl, rfl⟩ | ⟨rfl, rfl⟩
      · rw [Progress.beside_stray.place, Progress.beside_stray.groups, here] at next
        obtain ⟨texts, opening, rest, rfl, label⟩ := next
        exact ⟨(content, span) :: texts, opening, rest, rfl, label⟩
      · exact ⟨[], span, tokens, rfl, next⟩
    | inName opening begun =>
      rcases step_inName here taken with ⟨content, rfl, rfl⟩ | ⟨rfl, notBlank, rfl⟩
      · exact Delimits.text next
      · exact Delimits.closed notBlank next
    | inParameter opening begun =>
      rcases step_inParameter here taken with ⟨content, rfl, rfl⟩ | ⟨rfl, notBlank, rfl⟩
      · exact Delimits.text next
      · rw [Progress.addParameter_place, Progress.addParameter_depth] at next
        exact Delimits.closed notBlank next
    | body =>
      rcases step_body here taken with ⟨content, rfl, rfl⟩ | ⟨rfl, rfl⟩ | ⟨rfl, rfl⟩ |
        ⟨rfl, group, outer, open_, rfl⟩
      · rw [Progress.beside_stray.place, Progress.beside_stray.groups, here] at next
        exact Ending.text content span next
      · obtain ⟨label, rest, whole, ending⟩ :=
          Delimits.label next (separated_tail separated) span
        rw [whole]
        exact ending.parameter label
      · rw [here] at next
        exact Ending.group span next
      · have left : (p.leave group outer span).place = .body ∧
            (p.leave group outer span).groups = outer := by
          unfold Progress.leave
          split
          · exact ⟨here, rfl⟩
          · exact ⟨here, rfl⟩
        rw [left.1, left.2] at next
        rw [open_]
        exact .close .done span next

/-- The tokens of a line that was read are those of a phrase. -/
theorem phrase_of_reads (reads : Reads .start tokens q) (place : q.place = .body)
    (groups : q.groups = []) (separated : Separated tokens) :
    ∃ phrase : Phrase, tokens = phrase.tokens := by
  obtain ⟨texts, opening, behind, rfl, delimited⟩ := expects_of_reads reads place groups separated
  obtain ⟨⟨lead, rfl⟩, tail⟩ := texts_before_mark separated
  obtain ⟨label, rest, whole, ending⟩ := delimited.label tail opening
  cases ending with
  | last body =>
    refine ⟨⟨lead, label, body⟩, ?_⟩
    rw [whole]
    rfl

/-- A phrase is read, and what is gathered is what it says. -/
theorem reads_phrase (phrase : Phrase) :
    ∃ q, Reads .start phrase.tokens q ∧ q.place = .body ∧ q.groups = [] ∧
      q.descriptor = phrase.descriptor := by
  obtain ⟨lead, label, body⟩ := phrase
  have led : ∃ p, Reads .start (lead.toList.map textToken) p ∧ Progress.start.Beside p ∧
      p.required = [] ∧ p.optional = [] := by
    cases lead with
    | none => exact ⟨_, reads_nil.2 rfl, Progress.beside_refl, rfl, rfl⟩
    | some text =>
      refine ⟨Progress.start.stray text.1 text.2, Reads.cons rfl (reads_nil.2 rfl),
        Progress.beside_stray, ?_⟩
      unfold Progress.stray
      split
      · exact ⟨rfl, rfl⟩
      · exact ⟨rfl, rfl⟩
  obtain ⟨p, first, beside, required, optional⟩ := led
  have named := reads_name beside.place label
  have standing : Standing label.name [] [] 0 { p with place := .body, name := label.name } :=
    ⟨rfl, rfl, ⟨required, optional⟩, by simp [beside.groups, Progress.start], List.nodup_nil,
      by simp, by simp [groupsOf]⟩
  obtain ⟨q, last, standing⟩ := standing.body body
  refine ⟨q, Reads.append first (Reads.append named last), standing.place,
    by simpa using standing.groups, ?_⟩
  unfold Progress.descriptor Phrase.descriptor
  rw [standing.name, standing.gathered.required, standing.gathered.optional]
  rfl

/-- **Reading follows the grammar.** A line is read exactly if its tokens are those of a phrase,
and then its descriptor is the one of the phrase: the trimmed name, the parameters outside all
groups as required ones, and the first parameter of every group as an optional one, unless its name
is required as well. -/
theorem parse_iff_phrase (line : String) :
    ((∃ outcome, parse line = .ok outcome) ↔
        ∃ phrase : Phrase, tokenize line.toList = phrase.tokens) ∧
      ∀ (outcome : Outcome) (phrase : Phrase), parse line = .ok outcome →
        tokenize line.toList = phrase.tokens → outcome.descriptor = phrase.descriptor := by
  have read : ∀ phrase : Phrase, tokenize line.toList = phrase.tokens →
      ∃ outcome, parse line = .ok outcome ∧ outcome.descriptor = phrase.descriptor := by
    intro phrase derived
    obtain ⟨q, reads, place, groups, said⟩ := reads_phrase phrase
    exact ⟨_, parseChars_eq_ok.2 ⟨q, derived ▸ reads, place, groups, rfl⟩, said⟩
  refine ⟨⟨?_, ?_⟩, ?_⟩
  · rintro ⟨outcome, parsed⟩
    obtain ⟨q, reads, place, groups, -⟩ := parseChars_eq_ok.1 parsed
    exact phrase_of_reads reads place groups (separated_tokenize line.toList)
  · rintro ⟨phrase, derived⟩
    obtain ⟨outcome, parsed, -⟩ := read phrase derived
    exact ⟨outcome, parsed⟩
  · intro outcome phrase parsed derived
    obtain ⟨other, same, said⟩ := read phrase derived
    rw [parsed] at same
    cases same
    exact said

/-- Nested groups, a name that is required and then optional, and one the other way round. -/
theorem parse_iff_phrase_nested :
    ∃ (outcome : Outcome) (phrase : Phrase),
      parse "**c** *x* [[*a*] *b*] [*x*] *b*" = .ok outcome ∧
        tokenize "**c** *x* [[*a*] *b*] [*x*] *b*".toList = phrase.tokens ∧
        outcome.descriptor = ⟨"c", ["x", "b"], ["a"]⟩ ∧ outcome.descriptor = phrase.descriptor := by
  have accepted : ((parse "**c** *x* [[*a*] *b*] [*x*] *b*").toOption.map (·.descriptor)) =
      some ⟨"c", ["x", "b"], ["a"]⟩ := by decide
  cases parsed : parse "**c** *x* [[*a*] *b*] [*x*] *b*" with
  | error e =>
    rw [parsed] at accepted
    cases accepted
  | ok outcome =>
    obtain ⟨phrase, derived⟩ := (parse_iff_phrase _).1.1 ⟨outcome, parsed⟩
    rw [parsed] at accepted
    exact ⟨outcome, phrase, rfl, derived, Option.some.inj accepted,
      (parse_iff_phrase _).2 outcome phrase parsed derived⟩

end Bindery.Synopsis
