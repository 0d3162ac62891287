import Bindery.Proofs.Synopsis.Irregularities

/-!
# Tokens that can be completed

Wherever a reader stands, there are tokens that bring it to the end of a synopsis. So what can be
completed is exactly what can be read (`viable_iff_reads`). A completion may start with a text where
the tokens end with one, and then the two are one text. That makes no difference: a reader goes the
same way whether a text comes as a whole or in parts (`accepted_joinTexts`).
-/

namespace Bindery.Synopsis
set_option autoImplicit false

open Bindery.Text (Span)

/-- A text in front of tokens: a part of the text they start with, else a text of its own. -/
def prependText (content : List Char) (span : Span) : List Token → List Token
  | ⟨.text more, rest⟩ :: tokens => ⟨.text (content ++ more), span.through rest⟩ :: tokens
  | tokens => ⟨.text content, span⟩ :: tokens

/-- The tokens with texts that follow each other made one. -/
def joinTexts : List Token → List Token
  | [] => []
  | ⟨.text content, span⟩ :: tokens => prependText content span (joinTexts tokens)
  | ⟨.mark mark, span⟩ :: tokens => ⟨.mark mark, span⟩ :: joinTexts tokens

/-- The reader takes the tokens for a whole synopsis. -/
def Accepted (tokens : List Token) : Prop :=
  ∃ p, Reads .start tokens p ∧ p.place = .body ∧ p.groups = []

/-- With some tokens behind them the tokens are accepted. -/
def Viable (tokens : List Token) : Prop :=
  ∃ more, Accepted (joinTexts (tokens ++ more))

variable {p p' q r : Progress} {token : Token} {tokens before : List Token}

theorem accepted_iff_parse {line : List Char} :
    Accepted (tokenize line) ↔ ∃ outcome, parseChars line = .ok outcome := by
  constructor
  · rintro ⟨p, reads, place, groups⟩
    exact ⟨_, parseChars_eq_ok.2 ⟨p, reads, place, groups, rfl⟩⟩
  · rintro ⟨outcome, parsed⟩
    obtain ⟨p, reads, place, groups, -⟩ := parseChars_eq_ok.1 parsed
    exact ⟨p, reads, place, groups⟩

/-! ## Readers at one point of a line -/

/-- A place after some more text. -/
def Place.extend (content : List Char) : Place → Place
  | .inName opening text => .inName opening (text ++ content)
  | .inParameter opening text => .inParameter opening (text ++ content)
  | .beforeName => .beforeName
  | .body => .body

theorem Place.extend_extend (place : Place) (first second : List Char) :
    (place.extend first).extend second = place.extend (first ++ second) := by
  cases place <;> simp [Place.extend]

/-- Texts are always taken. They can only make a name or a parameter longer. -/
theorem step_text (p : Progress) (content : List Char) (span : Span) :
    ∃ q, p.step ⟨.text content, span⟩ = .ok q ∧
      Progress.Beside { p with place := p.place.extend content } q := by
  unfold Progress.step
  cases here : p.place with
  | beforeName =>
    have stray : p.Beside (p.stray content span) := Progress.beside_stray
    exact ⟨_, rfl, stray.place.trans here, stray.name, stray.groups⟩
  | inName opening text => exact ⟨_, rfl, rfl, rfl, rfl⟩
  | body =>
    have stray : p.Beside (p.stray content span) := Progress.beside_stray
    exact ⟨_, rfl, stray.place.trans here, stray.name, stray.groups⟩
  | inParameter opening text => exact ⟨_, rfl, rfl, rfl, rfl⟩

theorem Progress.beside_symm (h : p.Beside q) : q.Beside p :=
  ⟨h.place.symm, h.name.symm, h.groups.symm⟩

theorem addParameter_name (name : String) (span : Span) :
    (p.addParameter name span).name = p.name := by
  unfold Progress.addParameter
  split
  · rw [(Progress.beside_addRequired _ _ _).name]
    split
    · rfl
    · rfl
  · split
    · rfl
    · rw [(Progress.beside_addOptional _ _ _).name]

theorem beside_addParameter (same : p.Beside p') (name : String) (span : Span) :
    Progress.Beside ({ p with place := .body }.addParameter name span)
      ({ p' with place := .body }.addParameter name span) := by
  constructor
  · rw [Progress.addParameter_place, Progress.addParameter_place]
  · rw [addParameter_name, addParameter_name, same.name]
  · rw [Progress.groups_addParameter, Progress.groups_addParameter, same.groups]

/-- What a reader takes, every reader beside it takes, and they are beside each other again. -/
theorem step_beside (same : p.Beside p') (taken : p.step token = .ok q) :
    ∃ q', p'.step token = .ok q' ∧ q.Beside q' := by
  obtain ⟨mark | content, span⟩ := token
  · cases here : p.place with
    | beforeName =>
      rcases step_beforeName here taken with ⟨_, kind, -⟩ | ⟨kind, rfl⟩
      · cases kind
      · cases kind
        exact ⟨{ p' with place := .inName span [] },
          by simp [Progress.step, same.place, here], rfl, same.name, same.groups⟩
    | inName opening text =>
      rcases step_inName here taken with ⟨_, kind, -⟩ | ⟨kind, notBlank, rfl⟩
      · cases kind
      · cases kind
        exact ⟨{ p' with place := .body, name := String.ofList (Text.trim text) },
          by simp [Progress.step, same.place, here, notBlank], rfl, rfl, same.groups⟩
    | inParameter opening text =>
      rcases step_inParameter here taken with ⟨_, kind, -⟩ | ⟨kind, notBlank, rfl⟩
      · cases kind
      · cases kind
        exact ⟨_, by simp [Progress.step, same.place, here, notBlank],
          beside_addParameter same _ _⟩
    | body =>
      rcases step_body here taken with ⟨_, kind, -⟩ | ⟨kind, rfl⟩ | ⟨kind, rfl⟩ |
        ⟨kind, group, outer, inside, rfl⟩
      · cases kind
      · cases kind
        exact ⟨{ p' with place := .inParameter span [] },
          by simp [Progress.step, same.place, here], rfl, same.name, same.groups⟩
      · cases kind
        refine ⟨{ p' with seenOptional := true, groups := ⟨span, false⟩ :: p'.groups },
          by simp [Progress.step, same.place, here], same.place, same.name, ?_⟩
        rw [same.groups]
      · cases kind
        have inside' : p'.groups = group :: outer := same.groups.trans inside
        obtain ⟨place, groups, -⟩ := Progress.leave_eq p group outer span
        obtain ⟨place', groups', -⟩ := Progress.leave_eq p' group outer span
        refine ⟨p'.leave group outer span, ?_, ?_, ?_, ?_⟩
        · simp [Progress.step, same.place, here, inside', Progress.leave]
        · rw [place, place', same.place]
        · unfold Progress.leave
          split
          · exact same.name
          · exact same.name
        · rw [groups, groups']
  · obtain ⟨r, step, extended⟩ := step_text p content span
    obtain ⟨r', step', extended'⟩ := step_text p' content span
    rw [taken] at step
    cases step
    refine ⟨r', step', extended'.place.trans ?_, extended'.name.trans ?_, extended'.groups.trans ?_⟩
    · rw [extended.place, same.place]
    · rw [extended.name, same.name]
    · rw [extended.groups, same.groups]

/-- The reader takes all of the tokens and is then beside `r`. -/
def Reaches (p : Progress) (tokens : List Token) (r : Progress) : Prop :=
  ∃ q, Reads p tokens q ∧ q.Beside r

theorem reaches_cons :
    Reaches p (token :: tokens) r ↔ ∃ q, p.step token = .ok q ∧ Reaches q tokens r := by
  constructor
  · rintro ⟨s, reads, beside⟩
    obtain ⟨q, taken, reads⟩ := reads_cons.1 reads
    exact ⟨q, taken, s, reads, beside⟩
  · rintro ⟨q, taken, s, reads, beside⟩
    exact ⟨s, Reads.cons taken reads, beside⟩

theorem Reaches.beside (h : Reaches p tokens r) (same : p.Beside p') : Reaches p' tokens r := by
  induction tokens generalizing p p' with
  | nil =>
    obtain ⟨q, reads, beside⟩ := h
    rw [← reads_nil.1 reads] at beside
    exact ⟨p', reads_nil.2 rfl, Progress.beside_trans (Progress.beside_symm same) beside⟩
  | cons token tokens ih =>
    obtain ⟨q, taken, rest⟩ := reaches_cons.1 h
    obtain ⟨q', taken', beside⟩ := step_beside same taken
    exact reaches_cons.2 ⟨q', taken', ih rest beside⟩

theorem reaches_text {content : List Char} {span : Span} :
    Reaches p (⟨.text content, span⟩ :: tokens) r ↔
      Reaches { p with place := p.place.extend content } tokens r := by
  obtain ⟨q, taken, beside⟩ := step_text p content span
  rw [reaches_cons]
  constructor
  · rintro ⟨s, taken', rest⟩
    rw [taken] at taken'
    cases taken'
    exact rest.beside (Progress.beside_symm beside)
  · intro rest
    exact ⟨q, taken, rest.beside beside⟩

/-- A text in two parts is read as the whole text. -/
theorem reaches_prependText {content : List Char} {span : Span} :
    Reaches p (prependText content span tokens) r ↔
      Reaches p (⟨.text content, span⟩ :: tokens) r := by
  unfold prependText
  split
  · rw [reaches_text, reaches_text, reaches_text, Place.extend_extend]
  · rfl

theorem reaches_joinTexts : Reaches p (joinTexts tokens) r ↔ Reaches p tokens r := by
  induction tokens generalizing p with
  | nil => rfl
  | cons token tokens ih =>
    obtain ⟨mark | content, span⟩ := token
    · rw [joinTexts, reaches_cons, reaches_cons]
      exact exists_congr fun q => and_congr_right fun _ => ih
    · rw [joinTexts, reaches_prependText, reaches_text, reaches_text]
      exact ih

theorem accepted_iff_reaches :
    Accepted tokens ↔ ∃ r, Reaches .start tokens r ∧ r.place = .body ∧ r.groups = [] := by
  constructor
  · rintro ⟨p, reads, place, groups⟩
    exact ⟨p, ⟨p, reads, Progress.beside_refl⟩, place, groups⟩
  · rintro ⟨r, ⟨p, reads, beside⟩, place, groups⟩
    exact ⟨p, reads, beside.place.symm.trans place, beside.groups.symm.trans groups⟩

/-- **Whether texts are joined makes no difference** to what is accepted. -/
theorem accepted_joinTexts : Accepted (joinTexts tokens) ↔ Accepted tokens := by
  rw [accepted_iff_reaches, accepted_iff_reaches]
  exact exists_congr fun r => and_congr_left fun _ => reaches_joinTexts

/-! ## Completions -/

/-- The reader can be brought to the end of a synopsis. -/
def Progress.Completes (p : Progress) : Prop :=
  ∃ more q, Reads p more q ∧ q.place = .body ∧ q.groups = []

theorem completes_of_step (taken : p.step token = .ok q) (h : q.Completes) : p.Completes := by
  obtain ⟨more, r, reads, place, groups⟩ := h
  exact ⟨token :: more, r, Reads.cons taken reads, place, groups⟩

/-- A letter, which makes every name one that is not blank. -/
theorem not_blank_letter (text : List Char) : Text.allBlank (text ++ ['x']) = false := by
  have letter : Text.isBlank 'x' = false := by decide
  simp [Text.allBlank, letter]

/-- Outside all marks, one closing bracket is needed for each open group. -/
theorem completes_body (here : p.place = .body) : p.Completes := by
  induction inside : p.groups generalizing p with
  | nil => exact ⟨[], p, reads_nil.2 rfl, here, inside⟩
  | cons group outer ih =>
    obtain ⟨place, groups, -⟩ := Progress.leave_eq p group outer default
    have taken : p.step ⟨.mark .optionalClose, default⟩ = .ok (p.leave group outer default) := by
      simp [Progress.step, here, inside, Progress.leave]
    exact completes_of_step taken (ih (place.trans here) groups)

theorem completes_inParameter {opening : Span} {text : List Char}
    (here : p.place = .inParameter opening text) : p.Completes := by
  have letter : p.step ⟨.text ['x'], default⟩ =
      .ok { p with place := .inParameter opening (text ++ ['x']) } := by
    simp [Progress.step, here]
  refine completes_of_step letter ?_
  have mark : Progress.step { p with place := .inParameter opening (text ++ ['x']) }
      ⟨.mark .parameter, default⟩ = .ok ({ p with place := .body }.addParameter
        (String.ofList (Text.trim (text ++ ['x']))) (opening.through default)) := by
    simp [Progress.step, not_blank_letter]
  exact completes_of_step mark (completes_body Progress.addParameter_place)

theorem completes_inName {opening : Span} {text : List Char}
    (here : p.place = .inName opening text) : p.Completes := by
  have letter : p.step ⟨.text ['x'], default⟩ =
      .ok { p with place := .inName opening (text ++ ['x']) } := by
    simp [Progress.step, here]
  refine completes_of_step letter ?_
  have mark : Progress.step { p with place := .inName opening (text ++ ['x']) }
      ⟨.mark .name, default⟩ =
        .ok { p with place := .body, name := String.ofList (Text.trim (text ++ ['x'])) } := by
    simp [Progress.step, not_blank_letter]
  exact completes_of_step mark (completes_body rfl)

/-- **Wherever a reader stands, the line can still become a synopsis.** -/
theorem completes (p : Progress) : p.Completes := by
  cases here : p.place with
  | beforeName =>
    have mark : p.step ⟨.mark .name, default⟩ = .ok { p with place := .inName default [] } := by
      simp [Progress.step, here]
    exact completes_of_step mark (completes_inName rfl)
  | inName opening text => exact completes_inName here
  | body => exact completes_body here
  | inParameter opening text => exact completes_inParameter here

/-- **What can be completed is what can be read.** -/
theorem viable_iff_reads : Viable tokens ↔ ∃ p, Reads .start tokens p := by
  constructor
  · rintro ⟨more, accepted⟩
    obtain ⟨q, reads, -⟩ := accepted_joinTexts.1 accepted
    obtain ⟨p, reads, -⟩ := reads_append.1 reads
    exact ⟨p, reads⟩
  · rintro ⟨p, reads⟩
    obtain ⟨more, q, rest, place, groups⟩ := completes p
    exact ⟨more, accepted_joinTexts.2 ⟨q, Reads.append reads rest, place, groups⟩⟩

/-- What stands in front of tokens that can be completed can be completed itself. -/
theorem Viable.front (h : Viable tokens) (inFront : before <+: tokens) : Viable before := by
  obtain ⟨more, rfl⟩ := inFront
  obtain ⟨p, reads⟩ := viable_iff_reads.1 h
  obtain ⟨q, reads, -⟩ := reads_append.1 reads
  exact viable_iff_reads.2 ⟨q, reads⟩

end Bindery.Synopsis
