import Bindery.Synopsis.Parse

/-!
# What the reader of a synopsis does

The reader is a machine over tokens. What one step can do is said here once, for each place in
which the machine can be: `step_beforeName`, `step_inName`, `step_body` and `step_inParameter`. A
whole line is a run, `Reads`, and reading succeeds exactly if the run ends outside all marks and
groups (`parseChars_eq_ok`).
-/

namespace Bindery.Synopsis
set_option autoImplicit false

open Bindery.Text (Span)

variable {p q r : Progress} {token : Token} {tokens more : List Token}

/-! ## Runs -/

/-- The reader takes all of the tokens and is then at `q`. -/
def Reads (p : Progress) (tokens : List Token) (q : Progress) : Prop :=
  tokens.foldlM Progress.step p = .ok q

theorem reads_nil : Reads p [] q ↔ p = q := by
  simp [Reads, pure, Except.pure]

theorem reads_cons :
    Reads p (token :: tokens) r ↔ ∃ q, p.step token = .ok q ∧ Reads q tokens r := by
  unfold Reads
  rw [List.foldlM_cons]
  cases p.step token with
  | error e => simp [bind, Except.bind]
  | ok q => simp [bind, Except.bind]

theorem reads_append :
    Reads p (tokens ++ more) r ↔ ∃ q, Reads p tokens q ∧ Reads q more r := by
  induction tokens generalizing p with
  | nil => simp [reads_nil]
  | cons token tokens ih =>
    simp only [List.cons_append, reads_cons, ih]
    constructor
    · rintro ⟨s, taken, q, first, second⟩
      exact ⟨q, ⟨s, taken, first⟩, second⟩
    · rintro ⟨q, ⟨s, taken, first⟩, second⟩
      exact ⟨s, taken, q, first, second⟩

theorem Reads.cons (taken : p.step token = .ok q) (rest : Reads q tokens r) :
    Reads p (token :: tokens) r :=
  reads_cons.2 ⟨q, taken, rest⟩

theorem Reads.append (first : Reads p tokens q) (second : Reads q more r) :
    Reads p (tokens ++ more) r :=
  reads_append.2 ⟨q, first, second⟩

/-- The reader ends a line where it is outside all marks and groups, and changes nothing then. -/
theorem finish_eq_ok {length : Nat} :
    p.finish length = .ok q ↔ p.place = .body ∧ p.groups = [] ∧ q = p := by
  unfold Progress.finish
  cases p.place with
  | beforeName => simp
  | inName opening text => simp
  | inParameter opening text => simp
  | body =>
    cases p.groups with
    | nil => simp [eq_comm]
    | cons group groups => simp

/-- **Reading a line** is a run over its tokens that ends outside all marks and groups. -/
theorem parseChars_eq_ok {line : List Char} {outcome : Outcome} :
    parseChars line = .ok outcome ↔
      ∃ q, Reads .start (tokenize line) q ∧ q.place = .body ∧ q.groups = [] ∧
        outcome = ⟨q.descriptor, q.findings.map (Warning.ofFinding line)⟩ := by
  unfold parseChars Reads
  cases (tokenize line).foldlM Progress.step Progress.start with
  | error e => simp [bind, Except.bind]
  | ok q =>
    cases done : q.finish (Text.byteLength line) with
    | error e =>
      have stuck : ¬(q.place = .body ∧ q.groups = []) := fun closed => by
        rw [finish_eq_ok.2 ⟨closed.1, closed.2, rfl⟩] at done
        cases done
      simp [bind, Except.bind, done]
      exact fun place groups => absurd ⟨place, groups⟩ stuck
    | ok q' =>
      obtain ⟨place, groups, rfl⟩ := finish_eq_ok.1 done
      simp [bind, Except.bind, done, place, groups, pure, Except.pure, eq_comm]

/-! ## What is gathered on the way -/

namespace Progress

variable {kind : Irregularity} {span : Span} {content : List Char} {param : String}

/-- Two readers at one point of a line, which differ at most in what they have gathered. -/
structure Beside (p q : Progress) : Prop where
  place : q.place = p.place
  name : q.name = p.name
  groups : q.groups = p.groups

theorem beside_refl : p.Beside p :=
  ⟨rfl, rfl, rfl⟩

theorem beside_trans (first : p.Beside q) (second : q.Beside r) : p.Beside r :=
  ⟨second.place.trans first.place, second.name.trans first.name,
    second.groups.trans first.groups⟩

theorem beside_warn : p.Beside (p.warn kind span) :=
  ⟨rfl, rfl, rfl⟩

/-- Text outside all marks changes the findings at most. -/
theorem stray_eq (p : Progress) (content : List Char) (span : Span) :
    p.stray content span = p ∨ p.stray content span = p.warn .strayText span := by
  unfold stray
  split
  · exact Or.inl rfl
  · exact Or.inr rfl

theorem beside_stray : p.Beside (p.stray content span) := by
  rcases stray_eq p content span with same | warned
  · rw [same]
    exact beside_refl
  · rw [warned]
    exact beside_warn

theorem beside_addRequired (p : Progress) (param : String) (span : Span) :
    p.Beside (p.addRequired param span) := by
  unfold addRequired
  split
  · exact beside_warn
  · split
    · exact ⟨rfl, rfl, rfl⟩
    · exact ⟨rfl, rfl, rfl⟩

theorem beside_addOptional (p : Progress) (param : String) (span : Span) :
    p.Beside (p.addOptional param span) := by
  unfold addOptional
  split
  · exact beside_warn
  · split
    · exact beside_warn
    · exact ⟨rfl, rfl, rfl⟩

theorem addParameter_outside (outside : p.groups = []) :
    p.addParameter param span =
      (if p.seenOptional then p.warn .requiredAfterOptional span else p).addRequired param span := by
  unfold addParameter
  rw [outside]

theorem addParameter_extra {group : Group} {outer : List Group} (inside : p.groups = group :: outer)
    (full : group.hasParameter = true) :
    p.addParameter param span = p.warn .extraOptionalParameter span := by
  unfold addParameter
  rw [inside]
  simp [full]

theorem addParameter_first {group : Group} {outer : List Group} (inside : p.groups = group :: outer)
    (empty : group.hasParameter = false) :
    p.addParameter param span =
      { p with groups := { group with hasParameter := true } :: outer }.addOptional param span := by
  unfold addParameter
  rw [inside]
  simp [empty]

theorem addParameter_place : (p.addParameter param span).place = p.place := by
  unfold addParameter
  split
  · split
    · exact (beside_addRequired _ _ _).place
    · exact (beside_addRequired _ _ _).place
  · split
    · rfl
    · exact (beside_addOptional _ _ _).place

/-- A parameter opens and closes no group. -/
theorem addParameter_depth : (p.addParameter param span).groups.length = p.groups.length := by
  unfold addParameter
  split
  · split
    · rw [(beside_addRequired _ _ _).groups, beside_warn.groups]
    · rw [(beside_addRequired _ _ _).groups]
  · next inside =>
    split
    · rfl
    · rw [(beside_addOptional _ _ _).groups, inside]
      rfl

end Progress

/-! ## What one step can do -/

/-- In front of the name: text, or the opening mark. -/
theorem step_beforeName (here : p.place = .beforeName) (taken : p.step token = .ok q) :
    (∃ content, token.kind = .text content ∧ q = p.stray content token.span) ∨
      token.kind = .mark .name ∧ q = { p with place := .inName token.span [] } := by
  unfold Progress.step at taken
  rw [here] at taken
  rcases token with ⟨mark | content, span⟩
  · cases mark with
    | name => exact Or.inr ⟨rfl, (Except.ok.inj taken).symm⟩
    | _ => cases taken
  · exact Or.inl ⟨content, rfl, (Except.ok.inj taken).symm⟩

/-- In the name: more of it, or its closing mark if it is not blank. -/
theorem step_inName {opening : Span} {text : List Char} (here : p.place = .inName opening text)
    (taken : p.step token = .ok q) :
    (∃ content, token.kind = .text content ∧
        q = { p with place := .inName opening (text ++ content) }) ∨
      token.kind = .mark .name ∧ Text.allBlank text = false ∧
        q = { p with place := .body, name := String.ofList (Text.trim text) } := by
  unfold Progress.step at taken
  rw [here] at taken
  rcases token with ⟨mark | content, span⟩
  · cases mark with
    | name =>
      simp only at taken
      split at taken
      · cases taken
      · next notBlank =>
        exact Or.inr ⟨rfl, Bool.eq_false_iff.2 notBlank, (Except.ok.inj taken).symm⟩
    | _ => cases taken
  · exact Or.inl ⟨content, rfl, (Except.ok.inj taken).symm⟩

/-- In a parameter: more of it, or its closing mark if it is not blank. -/
theorem step_inParameter {opening : Span} {text : List Char}
    (here : p.place = .inParameter opening text) (taken : p.step token = .ok q) :
    (∃ content, token.kind = .text content ∧
        q = { p with place := .inParameter opening (text ++ content) }) ∨
      token.kind = .mark .parameter ∧ Text.allBlank text = false ∧
        q = { p with place := .body }.addParameter (String.ofList (Text.trim text))
          (opening.through token.span) := by
  unfold Progress.step at taken
  rw [here] at taken
  rcases token with ⟨mark | content, span⟩
  · cases mark with
    | parameter =>
      simp only at taken
      split at taken
      · cases taken
      · next notBlank =>
        exact Or.inr ⟨rfl, Bool.eq_false_iff.2 notBlank, (Except.ok.inj taken).symm⟩
    | _ => cases taken
  · exact Or.inl ⟨content, rfl, (Except.ok.inj taken).symm⟩

/-- A reader that has left its innermost group, which is closed at `span`. -/
def Progress.leave (p : Progress) (group : Group) (outer : List Group) (span : Span) : Progress :=
  if group.hasParameter then { p with groups := outer }
  else { p with groups := outer }.warn .emptyOptionalGroup (group.opening.through span)

/-- Outside all marks: text, the opening mark of a parameter, or a bracket. -/
theorem step_body (here : p.place = .body) (taken : p.step token = .ok q) :
    (∃ content, token.kind = .text content ∧ q = p.stray content token.span) ∨
      (token.kind = .mark .parameter ∧ q = { p with place := .inParameter token.span [] }) ∨
      (token.kind = .mark .optionalOpen ∧
        q = { p with seenOptional := true, groups := ⟨token.span, false⟩ :: p.groups }) ∨
      token.kind = .mark .optionalClose ∧ ∃ group outer, p.groups = group :: outer ∧
        q = p.leave group outer token.span := by
  unfold Progress.step at taken
  rw [here] at taken
  rcases token with ⟨mark | content, span⟩
  · cases mark with
    | name => cases taken
    | parameter => exact Or.inr (Or.inl ⟨rfl, (Except.ok.inj taken).symm⟩)
    | optionalOpen =>
      refine Or.inr (Or.inr (Or.inl ⟨rfl, ?_⟩))
      rw [here]
      exact (Except.ok.inj taken).symm
    | optionalClose =>
      cases groups : p.groups with
      | nil => simp [groups] at taken
      | cons group outer =>
        simp only [groups] at taken
        refine Or.inr (Or.inr (Or.inr ⟨rfl, group, outer, rfl, ?_⟩))
        unfold Progress.leave
        rw [here]
        exact (Except.ok.inj taken).symm
  · exact Or.inl ⟨content, rfl, (Except.ok.inj taken).symm⟩

end Bindery.Synopsis
