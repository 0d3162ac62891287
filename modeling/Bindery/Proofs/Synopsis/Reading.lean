import Bindery.Proofs.Synopsis.Grammar
import Bindery.Proofs.Synopsis.Machine

/-!
# The reader follows the grammar

A line is read exactly if its tokens are those of a phrase, and what is read is what the phrase
says. Reading a derived body is an induction on the body: `Standing` says what the reader has
gathered when it has met some parameters and stands inside some groups, and every part of a body
leads from one standing to the next.
-/

namespace Bindery.Synopsis
set_option autoImplicit false

open Bindery.Text (Span)

variable {p q : Progress}

/-! ## Labels -/

/-- Outside all marks, a parameter is read as a whole. -/
theorem reads_parameter (here : p.place = .body) (label : Label) :
    Reads p (label.tokens .parameter)
      ({ p with place := .body }.addParameter label.name
        (label.opening.through label.closing)) := by
  refine Reads.cons (q := { p with place := .inParameter label.opening [] }) ?_
    (Reads.cons (q := { p with place := .inParameter label.opening label.content }) ?_
      (Reads.cons ?_ (reads_nil.2 rfl)))
  · simp [Progress.step, here]
  · simp [Progress.step]
  · simp [Progress.step, label.notBlank, Label.name]

/-- In front of the name, the name is read as a whole. -/
theorem reads_name (here : p.place = .beforeName) (label : Label) :
    Reads p (label.tokens .name) { p with place := .body, name := label.name } := by
  refine Reads.cons (q := { p with place := .inName label.opening [] }) ?_
    (Reads.cons (q := { p with place := .inName label.opening label.content }) ?_
      (Reads.cons ?_ (reads_nil.2 rfl)))
  · simp [Progress.step, here]
  · simp [Progress.step]
  · simp [Progress.step, label.notBlank, Label.name]

/-! ## What the reader has gathered -/

/-- The reader has gathered what the parameters `placed` declare. -/
structure Gathered (placed : List Placed) (p : Progress) : Prop where
  required : p.required = requiredOf placed
  optional : p.optional = optionalOf placed

namespace Gathered

variable {placed : List Placed} {group : Nat} {name : String} {span : Span}

/-- A parameter outside all groups is required from then on. -/
theorem addRequired (h : Gathered placed p) :
    Gathered (placed ++ [(none, name)]) (p.addRequired name span) := by
  have erased : optionalOf (placed ++ [(none, name)]) = (optionalOf placed).erase name :=
    optionalOf_snoc_outside
  unfold Progress.addRequired
  rw [h.required, h.optional]
  split
  · next declared =>
    have absent : name ∉ optionalOf placed := fun mem => by
      simpa [declared] using (List.mem_filter.1 mem).2
    refine ⟨?_, ?_⟩
    · rw [requiredOf_snoc_old declared]
      exact h.required
    · rw [erased, List.erase_of_not_mem absent]
      exact h.optional
  · next fresh =>
    split
    · exact ⟨(requiredOf_snoc_new fresh).symm, erased.symm⟩
    · next absent =>
      refine ⟨(requiredOf_snoc_new fresh).symm, ?_⟩
      rw [erased, List.erase_of_not_mem absent]

/-- The first parameter of a group is optional unless it is required. -/
theorem addOptional (h : Gathered placed p) (first : group ∉ groupsOf placed) :
    Gathered (placed ++ [(some group, name)]) (p.addOptional name span) := by
  have required : p.required = requiredOf (placed ++ [(some group, name)]) :=
    h.required.trans requiredOf_snoc_inside.symm
  unfold Progress.addOptional
  rw [h.required, h.optional]
  split
  · next declared =>
    exact ⟨required, h.optional.trans (optionalOf_snoc_declared first declared).symm⟩
  · next undeclared =>
    split
    · next overlap =>
      exact ⟨required, h.optional.trans (optionalOf_snoc_required first overlap).symm⟩
    · next unrequired =>
      exact ⟨h.required ▸ required, (optionalOf_snoc_new first unrequired undeclared).symm⟩

/-- Other parameters of a group declare nothing. -/
theorem extra (h : Gathered placed p) (met : group ∈ groupsOf placed) :
    Gathered (placed ++ [(some group, name)]) p :=
  ⟨h.required.trans requiredOf_snoc_inside.symm, h.optional.trans (optionalOf_snoc_old met).symm⟩

end Gathered

/-- The reader is in a body, outside all marks. The groups around it are those at `inside`, the
innermost first, the parameters it has met are `placed`, and the next token is at `position`. -/
structure Standing (command : String) (inside : List Nat) (placed : List Placed) (position : Nat)
    (p : Progress) : Prop where
  place : p.place = .body
  name : p.name = command
  gathered : Gathered placed p
  groups : p.groups.map (·.hasParameter) = inside.map fun group => decide (group ∈ groupsOf placed)
  distinct : inside.Nodup
  inside_before : ∀ group ∈ inside, group < position
  met_before : ∀ group ∈ groupsOf placed, group < position

namespace Standing

variable {command : String} {inside outer : List Nat} {placed : List Placed}
  {group position later : Nat} {span : Span} {content : List Char}

theorem mono (h : Standing command inside placed position p) (le : position ≤ later) :
    Standing command inside placed later p :=
  { h with
    inside_before := fun group mem => Nat.lt_of_lt_of_le (h.inside_before group mem) le
    met_before := fun group met => Nat.lt_of_lt_of_le (h.met_before group met) le }

theorem warn (h : Standing command inside placed position p) (kind : Irregularity) :
    Standing command inside placed position (p.warn kind span) :=
  ⟨h.place, h.name, ⟨h.gathered.required, h.gathered.optional⟩, h.groups, h.distinct,
    h.inside_before, h.met_before⟩

/-- Stray text changes nothing that counts. -/
theorem text (h : Standing command inside placed position p) (content : List Char)
    (span : Span) :
    ∃ q, p.step ⟨.text content, span⟩ = .ok q ∧
      Standing command inside placed (position + 1) q := by
  refine ⟨p.stray content span, by simp [Progress.step, h.place], ?_⟩
  rcases Progress.stray_eq p content span with same | warned
  · rw [same]
    exact h.mono (Nat.le_succ position)
  · rw [warned]
    exact (h.warn _).mono (Nat.le_succ position)

/-- A group that is opened is known by the position of its bracket, where none was before. -/
theorem enter (h : Standing command inside placed position p) (span : Span) :
    ∃ q, p.step ⟨.mark .optionalOpen, span⟩ = .ok q ∧
      Standing command (position :: inside) placed (position + 1) q := by
  have unmet : position ∉ groupsOf placed := fun met =>
    Nat.lt_irrefl _ (h.met_before position met)
  have unopened : position ∉ inside := fun mem => Nat.lt_irrefl _ (h.inside_before position mem)
  refine ⟨{ p with seenOptional := true, groups := ⟨span, false⟩ :: p.groups },
    by simp [Progress.step, h.place], ?_⟩
  constructor
  · exact h.place
  · exact h.name
  · exact ⟨h.gathered.required, h.gathered.optional⟩
  · simp only [List.map_cons, h.groups, unmet, decide_false]
  · exact List.nodup_cons.2 ⟨unopened, h.distinct⟩
  · intro group mem
    rcases List.mem_cons.1 mem with rfl | mem
    · exact Nat.lt_succ_self _
    · exact Nat.lt_succ_of_lt (h.inside_before group mem)
  · exact fun group met => Nat.lt_succ_of_lt (h.met_before group met)

/-- Inside a group, there is a group to be closed. -/
theorem innermost (h : Standing command (group :: outer) placed position p) :
    ∃ opened groups, p.groups = opened :: groups ∧
      opened.hasParameter = decide (group ∈ groupsOf placed) ∧
      groups.map (·.hasParameter) = outer.map fun group => decide (group ∈ groupsOf placed) := by
  have flags := h.groups
  cases open_ : p.groups with
  | nil => simp [open_] at flags
  | cons opened groups =>
    simp only [open_, List.map_cons, List.cons.injEq] at flags
    exact ⟨opened, groups, rfl, flags⟩

theorem leave (h : Standing command (group :: outer) placed position p) (span : Span) :
    ∃ q, p.step ⟨.mark .optionalClose, span⟩ = .ok q ∧
      Standing command outer placed (position + 1) q := by
  obtain ⟨opened, groups, open_, -, flags⟩ := h.innermost
  have left : Standing command outer placed (position + 1) { p with groups := groups } :=
    ⟨h.place, h.name, ⟨h.gathered.required, h.gathered.optional⟩, flags,
      (List.nodup_cons.1 h.distinct).2,
      fun group mem => Nat.lt_succ_of_lt (h.inside_before group (List.mem_cons_of_mem _ mem)),
      fun group met => Nat.lt_succ_of_lt (h.met_before group met)⟩
  refine ⟨p.leave opened groups span, ?_, ?_⟩
  · simp [Progress.step, h.place, open_, Progress.leave]
  · unfold Progress.leave
    split
    · exact left
    · exact left.warn _

/-- A parameter outside all groups. -/
theorem required (h : Standing command [] placed position p) (name : String) :
    Standing command [] (placed ++ [(none, name)]) position (p.addParameter name span) := by
  have outside : p.groups = [] := by simpa using h.groups
  have ready : ∀ q, p.Beside q → Gathered placed q →
      Standing command [] (placed ++ [(none, name)]) position (q.addRequired name span) := by
    intro q beside gathered
    have after := Progress.beside_trans beside (Progress.beside_addRequired q name span)
    constructor
    · rw [after.place]
      exact h.place
    · rw [after.name]
      exact h.name
    · exact gathered.addRequired
    · rw [after.groups, outside]
      rfl
    · exact h.distinct
    · exact h.inside_before
    · rw [groupsOf_snoc_outside]
      exact h.met_before
  rw [Progress.addParameter_outside outside]
  split
  · exact ready _ Progress.beside_warn ⟨h.gathered.required, h.gathered.optional⟩
  · exact ready _ Progress.beside_refl h.gathered

/-- A parameter of a group that has one. -/
theorem extra (h : Standing command (group :: outer) placed position p) (name : String)
    (met : group ∈ groupsOf placed) :
    Standing command (group :: outer) (placed ++ [(some group, name)]) position
      (p.addParameter name span) := by
  obtain ⟨opened, groups, open_, full, -⟩ := h.innermost
  rw [Progress.addParameter_extra open_ (by rw [full]; exact decide_eq_true met)]
  have same : groupsOf (placed ++ [(some group, name)]) = groupsOf placed := groupsOf_snoc_old met
  refine Standing.warn ⟨h.place, h.name, h.gathered.extra met, ?_, h.distinct, h.inside_before, ?_⟩ _
  · rw [same]
    exact h.groups
  · rw [same]
    exact h.met_before

/-- The first parameter of a group. From then on the group has one. -/
theorem first (h : Standing command (group :: outer) placed position p) (name : String)
    (unmet : group ∉ groupsOf placed) :
    Standing command (group :: outer) (placed ++ [(some group, name)]) position
      (p.addParameter name span) := by
  obtain ⟨opened, groups, open_, empty, flags⟩ := h.innermost
  rw [Progress.addParameter_first open_ (by rw [empty]; exact decide_eq_false unmet)]
  have more : groupsOf (placed ++ [(some group, name)]) = groupsOf placed ++ [group] :=
    groupsOf_snoc_new unmet
  have beside := Progress.beside_addOptional
    { p with groups := { opened with hasParameter := true } :: groups } name span
  -- the other groups are as they were: none of them is this one
  have others : outer.map (fun other => decide (other ∈ groupsOf placed ++ [group])) =
      outer.map fun other => decide (other ∈ groupsOf placed) := by
    refine List.map_congr_left fun other mem => ?_
    have differs : other ≠ group := fun same => (List.nodup_cons.1 h.distinct).1 (same ▸ mem)
    simp [differs]
  constructor
  · rw [beside.place]
    exact h.place
  · rw [beside.name]
    exact h.name
  · exact Gathered.addOptional ⟨h.gathered.required, h.gathered.optional⟩ unmet
  · rw [beside.groups, more]
    simp only [List.map_cons, others, flags]
    simp
  · exact h.distinct
  · exact h.inside_before
  · rw [more]
    intro other met
    rcases List.mem_append.1 met with old | new
    · exact h.met_before other old
    · rw [List.mem_singleton.1 new]
      exact h.inside_before group List.mem_cons_self

theorem parameter (h : Standing command inside placed position p) (label : Label) :
    ∃ q, Reads p (label.tokens .parameter) q ∧
      Standing command inside (placed ++ [(inside.head?, label.name)]) (position + 3) q := by
  refine ⟨_, reads_parameter h.place label, ?_⟩
  have back : Standing command inside placed position { p with place := .body } :=
    ⟨rfl, h.name, ⟨h.gathered.required, h.gathered.optional⟩, h.groups, h.distinct,
      h.inside_before, h.met_before⟩
  refine mono ?_ (Nat.le_add_right position 3)
  cases inside with
  | nil => exact back.required label.name
  | cons group outer =>
    by_cases met : group ∈ groupsOf placed
    · exact back.extra label.name met
    · exact back.first label.name met

/-- **Every body can be read**, wherever it stands, and its parameters are then added to those met
before. -/
theorem body (h : Standing command inside placed position p) (b : Body) :
    ∃ q, Reads p b.tokens q ∧
      Standing command inside (placed ++ b.parameters inside.head? position)
        (position + b.tokens.length) q := by
  induction b generalizing p inside placed position with
  | done => exact ⟨p, reads_nil.2 rfl, by simpa [Body.tokens, Body.parameters] using h⟩
  | text content span rest ih =>
    obtain ⟨q, taken, standing⟩ := h.text content span
    obtain ⟨r, reads, standing⟩ := ih standing
    refine ⟨r, Reads.cons taken reads, ?_⟩
    have size : position + 1 + rest.tokens.length =
        position + (Body.text content span rest).tokens.length := by
      simp only [Body.tokens, List.length_cons]
      omega
    exact size ▸ standing
  | parameter label rest ih =>
    obtain ⟨q, first, standing⟩ := h.parameter label
    obtain ⟨r, second, standing⟩ := ih standing
    refine ⟨r, Reads.append first second, ?_⟩
    have size : position + 3 + rest.tokens.length =
        position + (Body.parameter label rest).tokens.length := by
      simp only [Body.tokens, Label.tokens, List.length_append, List.length_cons, List.length_nil]
      omega
    rw [size, List.append_assoc] at standing
    exact standing
  | group opening inner closing rest innerIH restIH =>
    obtain ⟨q₁, entered, standing⟩ := h.enter opening
    obtain ⟨q₂, first, standing⟩ := innerIH standing
    obtain ⟨q₃, left, standing⟩ := standing.leave closing
    obtain ⟨q₄, second, standing⟩ := restIH standing
    refine ⟨q₄, Reads.cons entered (Reads.append first (Reads.cons left second)), ?_⟩
    have behind : position + 1 + inner.tokens.length + 1 = position + inner.tokens.length + 2 := by
      omega
    have size : position + inner.tokens.length + 2 + rest.tokens.length =
        position + (Body.group opening inner closing rest).tokens.length := by
      simp only [Body.tokens, List.length_append, List.length_cons]
      omega
    rw [behind, size, List.append_assoc] at standing
    exact standing

end Standing

end Bindery.Synopsis
