import Bindery.Proofs.Synopsis.Completion
import Bindery.Proofs.Synopsis.Refusals

/-!
# A synopsis fails as early as it can

The first token that rules out every completion is the one that is refused (`parse_fails_earliest`).
Where there is no such token the line could go on, and the error is about what is still open at its
end. What is open is told from the tokens alone: `openMark` and `openBrackets` know nothing of the
reader, and `Stands` says that the reader keeps the same marks and brackets.
-/

namespace Bindery.Synopsis
set_option autoImplicit false

open Bindery.Text (Span)

/-- The opening mark of a label without its closing one: of the marks of one kind, every second one
closes the one before it. -/
def openMark (mark : Mark) (tokens : List Token) : Option Span :=
  tokens.foldl (fun opening token =>
    if token.kind = .mark mark then
      match opening with
      | none => some token.span
      | some _ => none
    else opening) none

/-- The opening brackets without their closing ones, innermost first. -/
def openBrackets (tokens : List Token) : List Span :=
  tokens.foldl (fun openings token =>
    match token.kind with
    | .mark .optionalOpen => token.span :: openings
    | .mark .optionalClose => openings.tail
    | _ => openings) []

/-- A name has at least begun. -/
def Named (tokens : List Token) : Prop :=
  ∃ token ∈ tokens, token.kind = .mark .name

/-- The error about a token that cannot follow the tokens in front of it. -/
inductive Misplaced (before : List Token) (token : Token) : Error → Prop
  | unnamed (unnamed : ¬Named before) (other : token.kind ≠ .mark .name) :
      Misplaced before token ⟨.missingName, token.span⟩
  | emptyName {opening : Span} (inside : openMark .name before = some opening)
      (closes : token.kind = .mark .name) :
      Misplaced before token ⟨.emptyName, opening.through token.span⟩
  | emptyParameter {opening : Span} (inside : openMark .parameter before = some opening)
      (closes : token.kind = .mark .parameter) :
      Misplaced before token ⟨.emptyParameter, opening.through token.span⟩
  | unexpected (named : Named before)
      (name : token.kind = .mark .name → openMark .name before = none)
      (parameter : token.kind = .mark .parameter → openMark .parameter before = none) :
      Misplaced before token ⟨.unexpectedToken, token.span⟩

/-- The error about a line of `length` bytes that ends before its tokens are a synopsis. -/
inductive Unfinished (length : Nat) (tokens : List Token) : Error → Prop
  | unnamed (unnamed : ¬Named tokens) : Unfinished length tokens ⟨.missingName, ⟨0, length⟩⟩
  | name {opening : Span} (inside : openMark .name tokens = some opening) :
      Unfinished length tokens ⟨.unterminatedName, opening⟩
  | parameter {opening : Span} (inside : openMark .parameter tokens = some opening) :
      Unfinished length tokens ⟨.unterminatedParameter, opening⟩
  | group {opening : Span} (named : Named tokens) (name : openMark .name tokens = none)
      (parameter : openMark .parameter tokens = none)
      (inside : (openBrackets tokens).head? = some opening) :
      Unfinished length tokens ⟨.unterminatedOptional, opening⟩

variable {p q : Progress} {token : Token} {tokens before : List Token} {e : Error}

@[simp]
theorem openMark_concat (mark : Mark) (tokens : List Token) (token : Token) :
    openMark mark (tokens ++ [token]) =
      if token.kind = .mark mark then
        match openMark mark tokens with
        | none => some token.span
        | some _ => none
      else openMark mark tokens := by
  unfold openMark
  rw [List.foldl_append]
  rfl

@[simp]
theorem openBrackets_concat (tokens : List Token) (token : Token) :
    openBrackets (tokens ++ [token]) =
      match token.kind with
      | .mark .optionalOpen => token.span :: openBrackets tokens
      | .mark .optionalClose => (openBrackets tokens).tail
      | _ => openBrackets tokens := by
  unfold openBrackets
  rw [List.foldl_append]
  rfl

@[simp]
theorem named_concat : Named (tokens ++ [token]) ↔ Named tokens ∨ token.kind = .mark .name := by
  simp [Named, or_and_right, exists_or]

/-! ## What the reader has open -/

/-- The opening mark of the name in which the reader is. -/
@[simp]
def Place.name? : Place → Option Span
  | .inName opening _ => some opening
  | _ => none

/-- The opening mark of the parameter in which the reader is. -/
@[simp]
def Place.parameter? : Place → Option Span
  | .inParameter opening _ => some opening
  | _ => none

/-- The reader that has taken the tokens has open what they leave open. -/
structure Stands (tokens : List Token) (p : Progress) : Prop where
  named : Named tokens ↔ p.place ≠ .beforeName
  name : openMark .name tokens = p.place.name?
  parameter : openMark .parameter tokens = p.place.parameter?
  brackets : openBrackets tokens = p.groups.map (·.opening)

namespace Stands

theorem start : Stands [] .start :=
  ⟨by simp [Named, Progress.start], rfl, rfl, rfl⟩

theorem beside (h : Stands tokens p) (same : p.Beside q) : Stands tokens q := by
  refine ⟨h.named.trans ?_, h.name.trans ?_, h.parameter.trans ?_, h.brackets.trans ?_⟩
  · rw [same.place]
  · rw [same.place]
  · rw [same.place]
  · rw [same.groups]

/-- A text opens and closes nothing. -/
theorem text (h : Stands tokens p) (content : List Char) (span : Span) :
    Stands (tokens ++ [⟨.text content, span⟩]) { p with place := p.place.extend content } := by
  obtain ⟨named, name, parameter, brackets⟩ := h
  constructor
  · rw [named_concat, named]
    cases p.place <;> simp [Place.extend]
  · rw [openMark_concat, name]
    cases p.place <;> simp [Place.extend]
  · rw [openMark_concat, parameter]
    cases p.place <;> simp [Place.extend]
  · rw [openBrackets_concat, brackets]

end Stands

/-- What one token opens or closes, it opens or closes for the reader. -/
theorem Stands.step (h : Stands tokens p) (taken : p.step token = .ok q) :
    Stands (tokens ++ [token]) q := by
  obtain ⟨mark | content, span⟩ := token
  · obtain ⟨named, name, parameter, brackets⟩ := h
    cases here : p.place with
    | beforeName =>
      rcases step_beforeName here taken with ⟨_, kind, -⟩ | ⟨kind, rfl⟩
      · cases kind
      · cases kind
        constructor
        · simp
        · simp [name, here]
        · simp [parameter, here]
        · simp [brackets]
    | inName opening text =>
      rcases step_inName here taken with ⟨_, kind, -⟩ | ⟨kind, -, rfl⟩
      · cases kind
      · cases kind
        constructor
        · simp
        · simp [name, here]
        · simp [parameter, here]
        · simp [brackets]
    | inParameter opening text =>
      rcases step_inParameter here taken with ⟨_, kind, -⟩ | ⟨kind, -, rfl⟩
      · cases kind
      · cases kind
        constructor
        · simp [named, here, Progress.addParameter_place]
        · simp [name, here, Progress.addParameter_place]
        · simp [parameter, here, Progress.addParameter_place]
        · simp [brackets, Progress.brackets_addParameter]
    | body =>
      rcases step_body here taken with ⟨_, kind, -⟩ | ⟨kind, rfl⟩ | ⟨kind, rfl⟩ |
        ⟨kind, group, outer, inside, rfl⟩
      · cases kind
      · cases kind
        constructor
        · simp [named, here]
        · simp [name, here]
        · simp [parameter, here]
        · simp [brackets]
      · cases kind
        constructor
        · simp [named, here]
        · simp [name, here]
        · simp [parameter, here]
        · simp [brackets]
      · cases kind
        obtain ⟨place, groups, -⟩ := Progress.leave_eq p group outer span
        constructor
        · simp [named, place]
        · simp [name, place]
        · simp [parameter, place]
        · simp [brackets, groups, inside]
  · obtain ⟨r, step, extended⟩ := step_text p content span
    rw [taken] at step
    cases step
    exact (h.text content span).beside extended

/-- So it is for a whole run. -/
theorem Stands.reads (h : Stands before p) (reads : Reads p tokens q) :
    Stands (before ++ tokens) q := by
  induction tokens generalizing before p with
  | nil =>
    rw [← reads_nil.1 reads, List.append_nil]
    exact h
  | cons token tokens ih =>
    obtain ⟨r, taken, reads⟩ := reads_cons.1 reads
    rw [List.append_cons]
    exact ih (h.step taken) reads

namespace Stands

variable {opening : Span} {text : List Char}

theorem inName (h : Stands tokens p) (here : p.place = .inName opening text) :
    Named tokens ∧ openMark .name tokens = some opening ∧ openMark .parameter tokens = none := by
  obtain ⟨named, name, parameter, -⟩ := h
  rw [here] at named name parameter
  exact ⟨named.2 (by simp), name, parameter⟩

theorem inParameter (h : Stands tokens p) (here : p.place = .inParameter opening text) :
    Named tokens ∧ openMark .name tokens = none ∧ openMark .parameter tokens = some opening := by
  obtain ⟨named, name, parameter, -⟩ := h
  rw [here] at named name parameter
  exact ⟨named.2 (by simp), name, parameter⟩

theorem body (h : Stands tokens p) (here : p.place = .body) :
    Named tokens ∧ openMark .name tokens = none ∧ openMark .parameter tokens = none := by
  obtain ⟨named, name, parameter, -⟩ := h
  rw [here] at named name parameter
  exact ⟨named.2 (by simp), name, parameter⟩

/-- What the reader refuses is misplaced. -/
theorem misplaced (h : Stands before p) (refuses : p.Refuses token e) :
    Misplaced before token e := by
  cases refuses with
  | beforeName here other =>
    exact .unnamed (fun named => h.named.1 named here) (by simpa using other)
  | blankName here blank =>
    obtain ⟨-, name, -⟩ := h.inName here
    exact .emptyName name rfl
  | inName here other =>
    obtain ⟨named, -, parameter⟩ := h.inName here
    exact .unexpected named (fun kind => absurd (TokenKind.mark.inj kind) other) fun _ => parameter
  | secondName here =>
    obtain ⟨named, name, parameter⟩ := h.body here
    exact .unexpected named (fun _ => name) fun _ => parameter
  | unopened here outside =>
    obtain ⟨named, name, parameter⟩ := h.body here
    exact .unexpected named (fun _ => name) fun _ => parameter
  | blankParameter here blank =>
    obtain ⟨-, -, parameter⟩ := h.inParameter here
    exact .emptyParameter parameter rfl
  | inParameter here other =>
    obtain ⟨named, name, -⟩ := h.inParameter here
    exact .unexpected named (fun _ => name) fun kind => absurd (TokenKind.mark.inj kind) other

/-- Where the reader cannot end a line, the line is unfinished. -/
theorem unfinished {length : Nat} (h : Stands tokens p) (lacks : p.Lacks length e) :
    Unfinished length tokens e := by
  cases lacks with
  | name here => exact .unnamed fun named => h.named.1 named here
  | endOfName here => exact .name (h.inName here).2.1
  | endOfParameter here => exact .parameter (h.inParameter here).2.2
  | endOfGroup here inside =>
    obtain ⟨named, name, parameter⟩ := h.body here
    exact .group named name parameter (by rw [h.brackets, inside]; rfl)

end Stands

/-- A token that is refused ends everything that can be completed. -/
theorem not_viable_of_step (reads : Reads .start before p) (refused : p.step token = .error e) :
    ¬Viable (before ++ [token]) := by
  intro viable
  obtain ⟨q, reads'⟩ := viable_iff_reads.1 viable
  obtain ⟨r, front, last⟩ := reads_append.1 reads'
  obtain ⟨s, taken, -⟩ := reads_cons.1 last
  rw [front.unique reads, refused] at taken
  cases taken

/-- **A synopsis fails as early as it can.** A line is rejected in one of two ways. Either there is a
first token with which the tokens can no longer be completed, and the error is about that token: it
stands where it is expected to be the name, it closes a label that is empty, or it is unexpected. Or
all tokens together can be completed but are not a synopsis themselves, and the error is about what is
still open: the whole line if there is no name, the opening mark of the label in which the line ends,
or the innermost bracket that is not closed. -/
theorem parse_fails_earliest {line : String} {e : Error} (failed : parse line = .error e) :
    (∃ before token after, tokenize line.toList = before ++ token :: after ∧
        Misplaced before token e ∧ (∀ shorter, shorter <+: before → Viable shorter) ∧
        ¬Viable (before ++ [token])) ∨
      Unfinished (Text.byteLength line.toList) (tokenize line.toList) e ∧
        Viable (tokenize line.toList) ∧ ¬Accepted (tokenize line.toList) := by
  rcases parseChars_error failed with ⟨before, token, after, p, split, reads, refused⟩ |
    ⟨p, reads, lacking⟩
  · have stands : Stands before p := Stands.start.reads reads
    have viable : Viable before := viable_iff_reads.2 ⟨p, reads⟩
    exact Or.inl ⟨before, token, after, split, stands.misplaced (refuses_of_step refused),
      fun _ inFront => viable.front inFront, not_viable_of_step reads refused⟩
  · have stands : Stands (tokenize line.toList) p := Stands.start.reads reads
    refine Or.inr ⟨stands.unfinished (lacks_of_finish lacking), viable_iff_reads.2 ⟨p, reads⟩, ?_⟩
    intro accepted
    obtain ⟨outcome, parsed⟩ := accepted_iff_parse.1 accepted
    rw [show parseChars line.toList = .error e from failed] at parsed
    cases parsed

/-- A parameter that is empty, where the name and the bracket in front of it can still be completed,
and a line that ends in the outer one of two groups. -/
theorem parse_fails_earliest_nested :
    let early := "**c** [* * *a*"
    let open_ := "**c** [[*a*]"
    (parse early = .error ⟨.emptyParameter, ⟨7, 10⟩⟩ ∧
        ∃ before token after, tokenize early.toList = before ++ token :: after ∧
          token.span.stop = 10 ∧ Viable before ∧ ¬Viable (before ++ [token])) ∧
      parse open_ = .error ⟨.unterminatedOptional, ⟨6, 7⟩⟩ ∧
        (openBrackets (tokenize open_.toList)).head? = some ⟨6, 7⟩ ∧
        Viable (tokenize open_.toList) ∧ ¬Accepted (tokenize open_.toList) := by
  intro early open_
  have empty : parse early = .error ⟨.emptyParameter, ⟨7, 10⟩⟩ := by decide
  have unclosed : parse open_ = .error ⟨.unterminatedOptional, ⟨6, 7⟩⟩ := by decide
  refine ⟨⟨empty, ?_⟩, unclosed, ?_⟩
  · rcases parse_fails_earliest empty with ⟨before, token, after, split, misplaced, viable, never⟩ |
      ⟨unfinished, -⟩
    · refine ⟨before, token, after, split, ?_, viable before List.prefix_rfl, never⟩
      generalize same : Error.mk .emptyParameter ⟨7, 10⟩ = e at misplaced
      cases misplaced with
      | emptyParameter inside closes => exact (congrArg (·.span.stop) same).symm
      | _ => cases same
    · cases unfinished
  · rcases parse_fails_earliest unclosed with ⟨before, token, after, split, misplaced, viable, never⟩ |
      ⟨unfinished, viable, rejected⟩
    · cases misplaced
    · cases unfinished with
      | group named name parameter inside => exact ⟨inside, viable, rejected⟩

end Bindery.Synopsis
