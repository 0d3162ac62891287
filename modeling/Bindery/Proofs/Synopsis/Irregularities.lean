import Bindery.Proofs.Synopsis.Acceptance

/-!
# No parameter is lost silently

Each parameter of a synopsis is in its descriptor, or there is a warning for it. The other warnings
are about the non-blank texts outside all marks, the groups without a parameter of their own, and the
parameters outside all groups behind one; each of them is listed here as a function of the phrase.

Reading a body is described as a relation, `Passes`, with one rule for each form of body. What the
reader gathers is then an induction on the rules for each kind of finding.
-/

namespace Bindery.Synopsis
set_option autoImplicit false

open Bindery.Text (Span)

/-! ## Irregularities of a phrase -/

/-- A label with its marks. -/
def Label.extent (label : Label) : Span :=
  label.opening.through label.closing

namespace Body

/-- The parameters of a body in the order of the line. -/
def labels : Body → List Label
  | done => []
  | text _ _ rest => rest.labels
  | parameter label rest => label :: rest.labels
  | group _ inner _ rest => inner.labels ++ rest.labels

/-- The places of the texts that are not blank. -/
def strays : Body → List Span
  | done => []
  | text content span rest => (if Text.allBlank content then [] else [span]) ++ rest.strays
  | parameter _ rest => rest.strays
  | group _ inner _ rest => inner.strays ++ rest.strays

/-- Whether a body has a parameter that is in none of its groups. -/
def hasDirectParameter : Body → Bool
  | done => false
  | text _ _ rest => rest.hasDirectParameter
  | parameter _ _ => true
  | group _ _ _ rest => rest.hasDirectParameter

/-- The places of the groups without a parameter of their own, in the order in which they end. -/
def emptyGroups : Body → List Span
  | done => []
  | text _ _ rest => rest.emptyGroups
  | parameter _ rest => rest.emptyGroups
  | group opening inner closing rest =>
    inner.emptyGroups ++
      ((if inner.hasDirectParameter then [] else [opening.through closing]) ++ rest.emptyGroups)

/-- The places of the parameters outside all groups that stand behind the opening of one, for a body
that itself stands behind one or not. -/
def lateParameters (behind : Bool) : Body → List Span
  | done => []
  | text _ _ rest => rest.lateParameters behind
  | parameter label rest => (if behind then [label.extent] else []) ++ rest.lateParameters behind
  | group _ _ _ rest => rest.lateParameters true

end Body

/-- The places of the non-blank texts of a synopsis outside all marks. -/
def Phrase.strays (phrase : Phrase) : List Span :=
  (phrase.lead.toList.filter fun lead => !Text.allBlank lead.1).map (·.2) ++ phrase.body.strays

/-- Whether an irregularity keeps a parameter out of the descriptor. -/
def Irregularity.dropsParameter : Irregularity → Bool
  | .extraOptionalParameter | .duplicateParameter | .overlappingParameter => true
  | .strayText | .emptyOptionalGroup | .requiredAfterOptional => false

/-! ## What is gathered -/

namespace Progress

/-- The places of the findings of a kind. -/
def noted (p : Progress) (kind : Irregularity) : List Span :=
  (p.findings.filter (·.1 = kind)).map (·.2)

/-- The parameters that are declared, and those for which there is a finding. -/
def accounted (p : Progress) : Nat :=
  p.required.length + p.optional.length + p.findings.countP (·.1.dropsParameter)

variable {p : Progress} {kind : Irregularity} {span : Span} {name : String}

theorem noted_warn (p : Progress) (found kind : Irregularity) (span : Span) :
    (p.warn found span).noted kind = p.noted kind ++ if found = kind then [span] else [] := by
  unfold noted warn
  rw [List.filter_append, List.map_append]
  by_cases same : found = kind <;> simp [same]

theorem accounted_warn (p : Progress) (found : Irregularity) (span : Span) :
    (p.warn found span).accounted = p.accounted + if found.dropsParameter then 1 else 0 := by
  unfold accounted warn
  rw [List.countP_append, List.countP_singleton]
  exact (Nat.add_assoc _ _ _).symm

theorem noted_stray (p : Progress) (content : List Char) (span : Span) (kind : Irregularity) :
    (p.stray content span).noted kind = p.noted kind ++
      if kind = .strayText ∧ Text.allBlank content = false then [span] else [] := by
  unfold stray
  cases Text.allBlank content with
  | true => simp
  | false =>
    rw [if_neg Bool.false_ne_true, noted_warn]
    simp [eq_comm]

theorem accounted_stray (p : Progress) (content : List Char) (span : Span) :
    (p.stray content span).accounted = p.accounted := by
  unfold stray
  split
  · rfl
  · rw [accounted_warn]
    rfl

/-- A reader that has taken one more parameter, about which nothing but its fate was noted. -/
structure Counted (p q : Progress) : Prop where
  seenOptional : q.seenOptional = p.seenOptional
  noted : ∀ kind, kind.dropsParameter = false → q.noted kind = p.noted kind
  accounted : q.accounted = p.accounted + 1

theorem counted_warn (p : Progress) (span : Span) (drops : kind.dropsParameter = true) :
    Counted p (p.warn kind span) where
  seenOptional := rfl
  noted := by
    intro other keeps
    have differs : kind ≠ other := fun same => by simp [same, keeps] at drops
    rw [noted_warn, if_neg differs, List.append_nil]
  accounted := by rw [accounted_warn, if_pos drops]

/-- A required parameter that takes the place of an optional one is added to one list and leaves the
other, and there is a finding about it. -/
theorem counted_addRequired (p : Progress) (name : String) (span : Span) :
    Counted p (p.addRequired name span) := by
  unfold addRequired
  split
  · exact counted_warn p span rfl
  · split
    · next declared =>
      have finding : Counted p (p.warn .overlappingParameter span) := counted_warn p span rfl
      refine ⟨rfl, finding.noted, ?_⟩
      have warned := finding.accounted
      have some : 0 < p.optional.length := List.length_pos_of_mem declared
      simp only [accounted, warn] at warned ⊢
      rw [List.length_append, List.length_singleton, List.length_erase_of_mem declared]
      omega
    · refine ⟨rfl, fun _ _ => rfl, ?_⟩
      simp only [accounted, List.length_append, List.length_singleton]
      omega

theorem counted_addOptional (p : Progress) (name : String) (span : Span) :
    Counted p (p.addOptional name span) := by
  unfold addOptional
  split
  · exact counted_warn p span rfl
  · split
    · exact counted_warn p span rfl
    · refine ⟨rfl, fun _ _ => rfl, ?_⟩
      simp only [accounted, List.length_append, List.length_singleton]
      omega

/-- Outside all groups, a parameter behind one is late. -/
theorem noted_addParameter (p : Progress) (name : String) (span : Span)
    (keeps : kind.dropsParameter = false) :
    (p.addParameter name span).noted kind = p.noted kind ++
      if kind = .requiredAfterOptional ∧ p.groups = [] ∧ p.seenOptional = true then [span]
      else [] := by
  cases inside : p.groups with
  | nil =>
    rw [addParameter_outside inside, (counted_addRequired _ _ _).noted kind keeps]
    cases seen : p.seenOptional with
    | false => simp
    | true =>
      rw [if_pos rfl, noted_warn]
      simp [eq_comm]
  | cons group outer =>
    rw [if_neg (by simp), List.append_nil]
    cases full : group.hasParameter with
    | true =>
      rw [addParameter_extra inside full]
      exact (counted_warn p span rfl).noted kind keeps
    | false =>
      rw [addParameter_first inside full]
      exact (counted_addOptional _ _ _).noted kind keeps

/-- Wherever a parameter stands, it is accounted for. -/
theorem accounted_addParameter (p : Progress) (name : String) (span : Span) :
    (p.addParameter name span).accounted = p.accounted + 1 ∧
      (p.addParameter name span).seenOptional = p.seenOptional := by
  cases inside : p.groups with
  | nil =>
    obtain ⟨seen, -, accounted⟩ := counted_addRequired
      (if p.seenOptional then p.warn .requiredAfterOptional span else p) name span
    rw [addParameter_outside inside, accounted, seen]
    split
    · exact ⟨congrArg (· + 1) (accounted_warn p .requiredAfterOptional span), rfl⟩
    · exact ⟨rfl, rfl⟩
  | cons group outer =>
    cases full : group.hasParameter with
    | true =>
      have finding : Counted p (p.warn .extraOptionalParameter span) := counted_warn p span rfl
      rw [addParameter_extra inside full]
      exact ⟨finding.accounted, rfl⟩
    | false =>
      obtain ⟨seen, -, accounted⟩ := counted_addOptional
        { p with groups := { group with hasParameter := true } :: outer } name span
      rw [addParameter_first inside full]
      exact ⟨accounted, seen⟩

theorem seenOptional_stray (p : Progress) (content : List Char) (span : Span) :
    (p.stray content span).seenOptional = p.seenOptional := by
  unfold stray
  split
  · rfl
  · rfl

/-- The open groups after the innermost of them has met a parameter, or has met none. -/
def groupsAfter (groups : List Group) (direct : Bool) : List Group :=
  groups.modifyHead fun group => { group with hasParameter := group.hasParameter || direct }

theorem groupsAfter_false (groups : List Group) : groupsAfter groups false = groups := by
  cases groups <;> simp [groupsAfter]

theorem groupsAfter_groupsAfter (groups : List Group) (first second : Bool) :
    groupsAfter (groupsAfter groups first) second = groupsAfter groups (first || second) := by
  cases groups <;> simp [groupsAfter, Bool.or_assoc]

theorem groupsAfter_eq_nil {groups : List Group} {direct : Bool} :
    groupsAfter groups direct = [] ↔ groups = [] := by
  cases groups <;> simp [groupsAfter]

theorem groups_addParameter (p : Progress) (name : String) (span : Span) :
    (p.addParameter name span).groups = groupsAfter p.groups true := by
  cases inside : p.groups with
  | nil =>
    rw [addParameter_outside inside, (beside_addRequired _ _ _).groups]
    split
    · exact inside
    · exact inside
  | cons group outer =>
    cases full : group.hasParameter with
    | true =>
      rw [addParameter_extra inside full, beside_warn.groups, inside]
      simp [groupsAfter, ← full]
    | false =>
      rw [addParameter_first inside full, (beside_addOptional _ _ _).groups]
      simp [groupsAfter]

theorem brackets_addParameter (p : Progress) (name : String) (span : Span) :
    (p.addParameter name span).groups.map (·.opening) = p.groups.map (·.opening) := by
  rw [groups_addParameter]
  cases p.groups with
  | nil => rfl
  | cons group outer => rfl

/-- A reader that has entered a group opened at `span`. -/
def enter (p : Progress) (span : Span) : Progress :=
  { p with seenOptional := true, groups := ⟨span, false⟩ :: p.groups }

variable {group : Group} {outer : List Group}

theorem noted_leave (p : Progress) (group : Group) (outer : List Group) (span : Span)
    (kind : Irregularity) :
    (p.leave group outer span).noted kind = p.noted kind ++
      if kind = .emptyOptionalGroup ∧ group.hasParameter = false then [group.opening.through span]
      else [] := by
  unfold leave
  cases group.hasParameter with
  | true => simp [noted]
  | false =>
    rw [if_neg Bool.false_ne_true, noted_warn]
    simp [noted, eq_comm]

theorem accounted_leave (p : Progress) (group : Group) (outer : List Group) (span : Span) :
    (p.leave group outer span).accounted = p.accounted := by
  unfold leave
  split
  · rfl
  · rw [accounted_warn]
    rfl

theorem leave_eq (p : Progress) (group : Group) (outer : List Group) (span : Span) :
    (p.leave group outer span).place = p.place ∧ (p.leave group outer span).groups = outer ∧
      (p.leave group outer span).seenOptional = p.seenOptional := by
  unfold leave
  split
  · exact ⟨rfl, rfl, rfl⟩
  · exact ⟨rfl, rfl, rfl⟩

end Progress

/-! ## Reading a body -/

/-- The reader takes a body from one point outside all marks to another. -/
inductive Passes : Progress → Body → Progress → Prop
  | done {p : Progress} (here : p.place = .body) : Passes p .done p
  | text {p q : Progress} {content : List Char} {span : Span} {rest : Body}
      (behind : Passes (p.stray content span) rest q) : Passes p (.text content span rest) q
  | parameter {p q : Progress} {label : Label} {rest : Body}
      (behind : Passes ({ p with place := .body }.addParameter label.name label.extent) rest q) :
      Passes p (.parameter label rest) q
  | group {p q r : Progress} {opening closing : Span} {inner rest : Body} {group : Group}
      {outer : List Group} (inside : Passes (p.enter opening) inner q)
      (open_ : q.groups = group :: outer) (behind : Passes (q.leave group outer closing) rest r) :
      Passes p (.group opening inner closing rest) r

variable {p q r : Progress} {b : Body} {tokens : List Token}

theorem Reads.unique (first : Reads p tokens q) (second : Reads p tokens r) : q = r :=
  Except.ok.inj (first.symm.trans second)

theorem Passes.place (h : Passes p b q) : q.place = .body := by
  induction h with
  | done here => exact here
  | text _ ih => exact ih
  | parameter _ ih => exact ih
  | group _ _ _ _ ih => exact ih

/-- What reads the tokens of a body passes it. -/
theorem passes_of_reads (here : p.place = .body) (reads : Reads p b.tokens q) : Passes p b q := by
  induction b generalizing p q with
  | done =>
    rw [← reads_nil.1 reads]
    exact .done here
  | text content span rest ih =>
    obtain ⟨s, taken, reads⟩ := reads_cons.1 reads
    have next : s = p.stray content span := by
      simpa [Progress.step, here] using taken.symm
    subst next
    exact .text (ih (Progress.beside_stray.place.trans here) reads)
  | parameter label rest ih =>
    obtain ⟨s, first, reads⟩ := reads_append.1 reads
    rw [first.unique (reads_parameter here label)] at reads
    exact .parameter (ih Progress.addParameter_place reads)
  | group opening inner closing rest innerIH restIH =>
    obtain ⟨s, entered, reads⟩ := reads_cons.1 reads
    obtain ⟨t, inside, reads⟩ := reads_append.1 reads
    obtain ⟨u, left, behind⟩ := reads_cons.1 reads
    have next : s = p.enter opening := by
      simpa [Progress.step, here, Progress.enter] using entered.symm
    subst next
    have passed := innerIH (p := p.enter opening) here inside
    rcases step_body passed.place left with ⟨_, kind, -⟩ | ⟨kind, -⟩ | ⟨kind, -⟩ |
      ⟨-, group, outer, open_, rfl⟩
    · cases kind
    · cases kind
    · cases kind
    · exact .group passed open_
        (restIH ((Progress.leave_eq t group outer closing).1.trans passed.place) behind)

namespace Passes

/-- A body leaves open the groups around it, and the innermost has met its direct parameters. -/
theorem groups (h : Passes p b q) :
    q.groups = Progress.groupsAfter p.groups b.hasDirectParameter := by
  induction h with
  | done _ => exact (Progress.groupsAfter_false _).symm
  | text _ ih => rw [ih, Progress.beside_stray.groups, Body.hasDirectParameter]
  | parameter _ ih =>
    rw [ih, Progress.groups_addParameter, Progress.groupsAfter_groupsAfter, Bool.true_or,
      Body.hasDirectParameter]
  | group _ open_ _ innerIH restIH =>
    rw [open_] at innerIH
    have outside := (List.cons.inj innerIH).2
    rw [restIH, (Progress.leave_eq _ _ _ _).2.1, outside, Body.hasDirectParameter]

theorem seenOptional (h : Passes p b q) (seen : p.seenOptional = true) : q.seenOptional = true := by
  induction h with
  | done _ => exact seen
  | text _ ih => exact ih ((Progress.seenOptional_stray _ _ _).trans seen)
  | parameter _ ih => exact ih ((Progress.accounted_addParameter _ _ _).2.trans seen)
  | group _ _ _ innerIH restIH =>
    exact restIH ((Progress.leave_eq _ _ _ _).2.2.trans (innerIH rfl))

/-- **Each parameter is accounted for.** -/
theorem accounted (h : Passes p b q) : q.accounted = p.accounted + b.labels.length := by
  induction h with
  | done _ => rfl
  | text _ ih => rw [ih, Progress.accounted_stray, Body.labels]
  | @parameter p _ label rest _ ih =>
    have here : ({ p with place := .body } : Progress).accounted = p.accounted := rfl
    rw [ih, (Progress.accounted_addParameter _ _ _).1, here, Body.labels, List.length_cons]
    omega
  | @group p _ _ opening _ _ _ _ _ _ _ _ innerIH restIH =>
    have here : (p.enter opening).accounted = p.accounted := rfl
    rw [restIH, Progress.accounted_leave, innerIH, here, Body.labels, List.length_append,
      Nat.add_assoc]

theorem strays (h : Passes p b q) :
    q.noted .strayText = p.noted .strayText ++ b.strays := by
  induction h with
  | done _ => exact (List.append_nil _).symm
  | @text _ _ content _ _ _ ih =>
    rw [ih, Progress.noted_stray, List.append_assoc, Body.strays]
    cases Text.allBlank content <;> simp
  | @parameter p _ _ _ _ ih =>
    rw [ih, Progress.noted_addParameter _ _ _ rfl, if_neg (by simp), List.append_nil, Body.strays]
    rfl
  | @group p _ _ opening _ _ _ _ _ _ _ _ innerIH restIH =>
    rw [restIH, Progress.noted_leave, if_neg (by simp), List.append_nil, innerIH,
      List.append_assoc, Body.strays]
    rfl

theorem emptyGroups (h : Passes p b q) :
    q.noted .emptyOptionalGroup = p.noted .emptyOptionalGroup ++ b.emptyGroups := by
  induction h with
  | done _ => exact (List.append_nil _).symm
  | text _ ih =>
    rw [ih, Progress.noted_stray, if_neg (by simp), List.append_nil, Body.emptyGroups]
  | parameter _ ih =>
    rw [ih, Progress.noted_addParameter _ _ _ rfl, if_neg (by simp), List.append_nil,
      Body.emptyGroups]
    rfl
  | @group p q _ opening closing inner _ group outer inside open_ _ innerIH restIH =>
    have met : group = ⟨opening, inner.hasDirectParameter⟩ := by
      have groups := inside.groups
      rw [open_] at groups
      simpa [Progress.groupsAfter, Progress.enter] using (List.cons.inj groups).1
    have here : (p.enter opening).noted .emptyOptionalGroup = p.noted .emptyOptionalGroup := rfl
    rw [restIH, Progress.noted_leave, innerIH, here, met, Body.emptyGroups]
    cases inner.hasDirectParameter <;> simp

theorem lateParameters (h : Passes p b q) :
    q.noted .requiredAfterOptional = p.noted .requiredAfterOptional ++
      if p.groups = [] then b.lateParameters p.seenOptional else [] := by
  induction h with
  | done _ => simp [Body.lateParameters]
  | text _ ih =>
    rw [ih, Progress.noted_stray, if_neg (by simp), List.append_nil, Progress.beside_stray.groups,
      Progress.seenOptional_stray, Body.lateParameters]
  | @parameter p _ label _ _ ih =>
    rw [ih, Progress.noted_addParameter _ _ _ rfl, Progress.groups_addParameter,
      (Progress.accounted_addParameter _ _ _).2, Body.lateParameters, List.append_assoc]
    have here : ({ p with place := .body } : Progress).noted .requiredAfterOptional =
      p.noted .requiredAfterOptional := rfl
    rw [here]
    by_cases outside : p.groups = []
    · simp [outside, Progress.groupsAfter]
    · simp [outside, Progress.groupsAfter_eq_nil]
  | @group p q _ opening closing _ _ group outer inside open_ _ innerIH restIH =>
    obtain ⟨-, groups, seen⟩ := Progress.leave_eq q group outer closing
    have same : outer = p.groups := by
      have groups := inside.groups
      rw [open_] at groups
      exact (List.cons.inj groups).2
    have here : (p.enter opening).noted .requiredAfterOptional = p.noted .requiredAfterOptional :=
      rfl
    rw [restIH, Progress.noted_leave, if_neg (by simp), List.append_nil, innerIH, here, groups, seen,
      inside.seenOptional rfl, same, if_neg (by simp [Progress.enter]), List.append_nil,
      Body.lateParameters]

end Passes

/-- In front of the name there is at most one text to be noted. -/
theorem noted_of_lead {lead : Option (List Char × Span)}
    (reads : Reads .start (lead.toList.map textToken) p) :
    p.place = .beforeName ∧ p.groups = [] ∧ p.seenOptional = false ∧ p.accounted = 0 ∧
      ∀ kind, p.noted kind = if kind = .strayText then
        (lead.toList.filter fun text => !Text.allBlank text.1).map (·.2) else [] := by
  cases lead with
  | none =>
    rw [← reads_nil.1 reads]
    refine ⟨rfl, rfl, rfl, rfl, fun kind => ?_⟩
    split <;> rfl
  | some text =>
    have taken : Reads .start [textToken text] (Progress.start.stray text.1 text.2) :=
      Reads.cons rfl (reads_nil.2 rfl)
    rw [reads.unique taken]
    refine ⟨Progress.beside_stray.place, Progress.beside_stray.groups,
      Progress.seenOptional_stray _ _ _, Progress.accounted_stray _ _ _, fun kind => ?_⟩
    have none : Progress.start.noted kind = [] := rfl
    rw [Progress.noted_stray, none, List.nil_append]
    by_cases stray : kind = .strayText
    · cases blank : Text.allBlank text.1 <;> simp [stray, blank]
    · simp [stray]

/-- What is noted of a phrase. -/
theorem noted_of_reads {phrase : Phrase} (reads : Reads .start phrase.tokens q) :
    q.accounted = phrase.body.labels.length ∧ q.noted .strayText = phrase.strays ∧
      q.noted .emptyOptionalGroup = phrase.body.emptyGroups ∧
      q.noted .requiredAfterOptional = phrase.body.lateParameters false := by
  obtain ⟨lead, label, body⟩ := phrase
  obtain ⟨p, led, reads⟩ := reads_append.1 reads
  obtain ⟨s, name, reads⟩ := reads_append.1 reads
  obtain ⟨here, groups, seen, accounted, noted⟩ := noted_of_lead led
  rw [name.unique (reads_name here label)] at reads
  have named : ∀ kind, ({ p with place := .body, name := label.name } : Progress).noted kind =
      p.noted kind := fun _ => rfl
  have passed := passes_of_reads rfl reads
  refine ⟨?_, ?_, ?_, ?_⟩
  · have start : ({ p with place := .body, name := label.name } : Progress).accounted = 0 :=
      accounted
    rw [passed.accounted, start, Nat.zero_add]
  · rw [passed.strays, named, noted, if_pos rfl, Phrase.strays]
  · rw [passed.emptyGroups, named, noted, if_neg (by decide), List.nil_append]
  · rw [passed.lateParameters, named, noted, if_neg (by decide), List.nil_append, if_pos groups,
      seen]

/-! ## Warnings of a synopsis -/

namespace Outcome

/-- The warnings of a kind. -/
def warningsOf (outcome : Outcome) (kind : Irregularity) : List Warning :=
  outcome.warnings.filter (·.irregularity = kind)

theorem warningsOf_findings (line : List Char) (p : Progress) (kind : Irregularity) :
    (Outcome.mk p.descriptor (p.findings.map (Warning.ofFinding line))).warningsOf kind =
      (p.noted kind).map fun span => Warning.ofFinding line (kind, span) := by
  unfold warningsOf Progress.noted
  rw [List.filter_map, List.map_map]
  refine List.map_congr_left fun finding mem => ?_
  have same : finding.1 = kind := of_decide_eq_true (List.mem_filter.1 mem).2
  rw [Function.comp_apply, ← same]

end Outcome

/-- **No parameter is lost silently.** A line that is read is a phrase, and its parameters are as many
as those of its descriptor and the warnings that one was dropped. The other warnings are those about
its texts outside all marks that are not blank, its groups without a parameter of their own, and its
parameters outside all groups that stand behind the opening of a group, each with its place. -/
theorem parse_loses_no_parameter {line : String} {outcome : Outcome}
    (parsed : parse line = .ok outcome) :
    let warnings := fun kind (spans : List Span) =>
      spans.map fun span => Warning.ofFinding line.toList (kind, span)
    (∃ phrase : Phrase, tokenize line.toList = phrase.tokens) ∧
      ∀ phrase : Phrase, tokenize line.toList = phrase.tokens →
        phrase.body.labels.length = outcome.descriptor.required.length +
            outcome.descriptor.optional.length +
            outcome.warnings.countP (·.irregularity.dropsParameter) ∧
          outcome.warningsOf .strayText = warnings .strayText phrase.strays ∧
          outcome.warningsOf .emptyOptionalGroup =
            warnings .emptyOptionalGroup phrase.body.emptyGroups ∧
          outcome.warningsOf .requiredAfterOptional =
            warnings .requiredAfterOptional (phrase.body.lateParameters false) := by
  intro warnings
  obtain ⟨q, reads, place, groups, rfl⟩ := parseChars_eq_ok.1 parsed
  refine ⟨phrase_of_reads reads place groups (separated_tokenize line.toList), ?_⟩
  intro phrase derived
  rw [derived] at reads
  obtain ⟨accounted, strays, emptyGroups, lateParameters⟩ := noted_of_reads reads
  refine ⟨?_, ?_, ?_, ?_⟩
  · rw [← accounted, List.countP_map]
    rfl
  · rw [Outcome.warningsOf_findings, strays]
  · rw [Outcome.warningsOf_findings, emptyGroups]
  · rw [Outcome.warningsOf_findings, lateParameters]

/-- Six parameters for three that are declared: `b` is first optional and then required, `x` is the
second of its group, and `a` is declared twice. -/
theorem parse_loses_no_parameter_overlap :
    let line := "see **c** *a* [] [*b* *x*] [[*d*]] *b* *a*"
    ∃ (outcome : Outcome) (phrase : Phrase), parse line = .ok outcome ∧
      tokenize line.toList = phrase.tokens ∧
      outcome.descriptor = ⟨"c", ["a", "b"], ["d"]⟩ ∧
      outcome.warnings.map (·.irregularity) =
        [.strayText, .emptyOptionalGroup, .extraOptionalParameter, .emptyOptionalGroup,
          .requiredAfterOptional, .overlappingParameter, .requiredAfterOptional,
          .duplicateParameter] ∧
      phrase.body.labels.length = 6 := by
  intro line
  have accepted : (parse line).toOption.map (fun outcome =>
      (outcome.descriptor, outcome.warnings.map (·.irregularity))) =
      some (⟨"c", ["a", "b"], ["d"]⟩,
        [.strayText, .emptyOptionalGroup, .extraOptionalParameter, .emptyOptionalGroup,
          .requiredAfterOptional, .overlappingParameter, .requiredAfterOptional,
          .duplicateParameter]) := by decide
  cases parsed : parse line with
  | error e =>
    rw [parsed] at accepted
    cases accepted
  | ok outcome =>
    rw [parsed] at accepted
    obtain ⟨descriptor, warnings⟩ := Prod.mk.inj (Option.some.inj accepted)
    obtain ⟨⟨phrase, derived⟩, said⟩ := parse_loses_no_parameter parsed
    refine ⟨outcome, phrase, rfl, derived, descriptor, warnings, ?_⟩
    have dropped : outcome.warnings.countP (·.irregularity.dropsParameter) =
        (outcome.warnings.map (·.irregularity)).countP (·.dropsParameter) := by
      rw [List.countP_map]
      rfl
    rw [(said phrase derived).1, descriptor, dropped, warnings]
    rfl

end Bindery.Synopsis
