import Bindery.Synopsis.Parse
import Bindery.Proofs.Distinct

/-!
# The grammar of a synopsis

What a synopsis line may look like, said without a reader: a command name between its marks, with
some text in front of it, and behind it a body of stray text, parameters and bracket groups, which
nest to any depth. A `Phrase` is a derivation in this grammar, kept as a tree that carries its
positions, so `Phrase.tokens` is the one list of tokens it derives.

A parameter belongs to the innermost group around it. `Body.parameters` lists the parameters of a
body in the order of the line, each with its group; what is required and what is optional are
functions of that list alone.
-/

namespace Bindery.Synopsis
set_option autoImplicit false

open Bindery.Text (Span)

/-- A text between two marks that is not blank. -/
structure Label where
  opening : Span
  content : List Char
  span : Span
  closing : Span
  notBlank : Text.allBlank content = false

namespace Label

/-- The text without the blanks around it. -/
def name (label : Label) : String :=
  String.ofList (Text.trim label.content)

/-- The label between two marks of one kind. -/
def tokens (mark : Mark) (label : Label) : List Token :=
  [⟨.mark mark, label.opening⟩, ⟨.text label.content, label.span⟩, ⟨.mark mark, label.closing⟩]

end Label

/-- What follows the command name: stray text, parameters and groups, one after another. -/
inductive Body where
  | done
  | text (content : List Char) (span : Span) (rest : Body)
  | parameter (label : Label) (rest : Body)
  | group (opening : Span) (inner : Body) (closing : Span) (rest : Body)

/-- A parameter, and the group that stands most closely around it, if any. A group is known by the
position of its opening bracket among the tokens. -/
abbrev Placed := Option Nat × String

namespace Body

/-- The tokens a body derives. -/
def tokens : Body → List Token
  | done => []
  | text content span rest => ⟨.text content, span⟩ :: rest.tokens
  | parameter label rest => label.tokens .parameter ++ rest.tokens
  | group opening inner closing rest =>
    ⟨.mark .optionalOpen, opening⟩ ::
      (inner.tokens ++ ⟨.mark .optionalClose, closing⟩ :: rest.tokens)

/-- The parameters of a body in the order of the line. The body stands inside the group `inside`
and its first token is at `position`. -/
def parameters (inside : Option Nat) (position : Nat) : Body → List Placed
  | done => []
  | text _ _ rest => rest.parameters inside (position + 1)
  | parameter label rest => (inside, label.name) :: rest.parameters inside (position + 3)
  | group _ inner _ rest =>
    inner.parameters (some position) (position + 1) ++
      rest.parameters inside (position + inner.tokens.length + 2)

end Body

/-- The parameters outside all groups. -/
def outsideGroups (placed : List Placed) : List String :=
  (placed.filter (·.1.isNone)).map (·.2)

/-- The groups that have a parameter of their own, in the order of their first ones. -/
def groupsOf (placed : List Placed) : List Nat :=
  (placed.filterMap (·.1)).eraseDups

/-- The first parameter of every group that has one. -/
def firstOfGroups (placed : List Placed) : List String :=
  (groupsOf placed).filterMap fun group => placed.lookup (some group)

/-- The required parameters, each once, at its first place. -/
def requiredOf (placed : List Placed) : List String :=
  (outsideGroups placed).eraseDups

/-- The optional parameters, each once, at its first place, without those that are required. -/
def optionalOf (placed : List Placed) : List String :=
  (firstOfGroups placed).eraseDups.filter (· ∉ requiredOf placed)

/-- A synopsis: perhaps some text, the command name, and a body. -/
structure Phrase where
  lead : Option (List Char × Span)
  label : Label
  body : Body

namespace Phrase

/-- The tokens a synopsis derives. -/
def tokens (phrase : Phrase) : List Token :=
  phrase.lead.toList.map (fun lead => ⟨.text lead.1, lead.2⟩) ++
    (phrase.label.tokens .name ++ phrase.body.tokens)

/-- What a synopsis says about its command. -/
def descriptor (phrase : Phrase) : Descriptor :=
  let placed := phrase.body.parameters none 0
  ⟨phrase.label.name, requiredOf placed, optionalOf placed⟩

end Phrase

/-! ## One more parameter

What becomes of the lists when a parameter is added at the end, which is where a reader adds it. -/

section Snoc

variable {placed : List Placed} {group : Nat} {name : String}

theorem mem_groupsOf : group ∈ groupsOf placed ↔ some group ∈ placed.map (·.1) := by
  simp [groupsOf, List.mem_eraseDups]

theorem outsideGroups_snoc_outside :
    outsideGroups (placed ++ [(none, name)]) = outsideGroups placed ++ [name] := by
  simp [outsideGroups]

theorem outsideGroups_snoc_inside :
    outsideGroups (placed ++ [(some group, name)]) = outsideGroups placed := by
  simp [outsideGroups]

theorem groupsOf_snoc_outside : groupsOf (placed ++ [(none, name)]) = groupsOf placed := by
  simp [groupsOf]

/-- A second parameter makes no new group. -/
theorem groupsOf_snoc_old (met : group ∈ groupsOf placed) :
    groupsOf (placed ++ [(some group, name)]) = groupsOf placed := by
  have old : group ∈ placed.filterMap (·.1) := by simpa [groupsOf, List.mem_eraseDups] using met
  simp only [groupsOf, List.filterMap_append, List.filterMap_cons, List.filterMap_nil]
  exact eraseDups_snoc_of_mem old

theorem groupsOf_snoc_new (fresh : group ∉ groupsOf placed) :
    groupsOf (placed ++ [(some group, name)]) = groupsOf placed ++ [group] := by
  have new : group ∉ placed.filterMap (·.1) := by simpa [groupsOf, List.mem_eraseDups] using fresh
  simp only [groupsOf, List.filterMap_append, List.filterMap_cons, List.filterMap_nil]
  exact eraseDups_snoc_of_not_mem new

/-- The first parameter of a group stays the first. -/
theorem lookup_append_of_met (more : List Placed) (met : group ∈ groupsOf placed) :
    (placed ++ more).lookup (some group) = placed.lookup (some group) := by
  have found : (placed.lookup (some group)).isSome := by
    obtain ⟨entry, mem, key⟩ := List.mem_map.1 (mem_groupsOf.1 met)
    rw [List.lookup_isSome_iff]
    exact ⟨entry, mem, by simp [key]⟩
  rw [List.lookup_append, Option.or_of_isSome found]

theorem firstOfGroups_append_of_groups {more : List Placed}
    (same : groupsOf (placed ++ more) = groupsOf placed) :
    firstOfGroups (placed ++ more) = firstOfGroups placed := by
  unfold firstOfGroups
  rw [same]
  exact List.filterMap_congr fun group met => lookup_append_of_met more met

theorem firstOfGroups_snoc_new (fresh : group ∉ groupsOf placed) :
    firstOfGroups (placed ++ [(some group, name)]) = firstOfGroups placed ++ [name] := by
  have absent : placed.lookup (some group) = none := by
    rw [List.lookup_eq_none_iff]
    intro entry mem
    rw [bne_iff_ne]
    intro key
    exact fresh (mem_groupsOf.2 (List.mem_map.2 ⟨entry, mem, key.symm⟩))
  unfold firstOfGroups
  rw [groupsOf_snoc_new fresh, List.filterMap_append]
  congr 1
  · exact List.filterMap_congr fun old met => lookup_append_of_met _ met
  · simp [List.lookup_append, absent]

theorem nodup_optionalOf : (optionalOf placed).Nodup :=
  (nodup_eraseDups _).filter _

theorem requiredOf_snoc_inside :
    requiredOf (placed ++ [(some group, name)]) = requiredOf placed := by
  unfold requiredOf
  rw [outsideGroups_snoc_inside]

theorem requiredOf_snoc_old (declared : name ∈ requiredOf placed) :
    requiredOf (placed ++ [(none, name)]) = requiredOf placed := by
  unfold requiredOf
  rw [outsideGroups_snoc_outside]
  exact eraseDups_snoc_of_mem (List.mem_eraseDups.1 declared)

theorem requiredOf_snoc_new (fresh : name ∉ requiredOf placed) :
    requiredOf (placed ++ [(none, name)]) = requiredOf placed ++ [name] := by
  unfold requiredOf
  rw [outsideGroups_snoc_outside]
  exact eraseDups_snoc_of_not_mem fun old => fresh (List.mem_eraseDups.2 old)

theorem optionalOf_snoc_old (met : group ∈ groupsOf placed) :
    optionalOf (placed ++ [(some group, name)]) = optionalOf placed := by
  unfold optionalOf
  rw [firstOfGroups_append_of_groups (groupsOf_snoc_old met), requiredOf_snoc_inside]

/-- A required parameter takes the place of an optional one of its name. -/
theorem optionalOf_snoc_outside :
    optionalOf (placed ++ [(none, name)]) = (optionalOf placed).erase name := by
  have required : ∀ other, other ∈ requiredOf (placed ++ [(none, name)]) ↔
      other ∈ requiredOf placed ∨ other = name := by
    intro other
    simp [requiredOf, List.mem_eraseDups, outsideGroups_snoc_outside]
  rw [nodup_optionalOf.erase_eq_filter]
  unfold optionalOf
  rw [firstOfGroups_append_of_groups groupsOf_snoc_outside, List.filter_filter]
  refine List.filter_congr fun other _ => ?_
  by_cases same : other = name <;> simp [required, same]

theorem optionalOf_snoc_required (fresh : group ∉ groupsOf placed)
    (required : name ∈ requiredOf placed) :
    optionalOf (placed ++ [(some group, name)]) = optionalOf placed := by
  unfold optionalOf
  rw [firstOfGroups_snoc_new fresh, requiredOf_snoc_inside]
  by_cases old : name ∈ firstOfGroups placed
  · rw [eraseDups_snoc_of_mem old]
  · rw [eraseDups_snoc_of_not_mem old, List.filter_append]
    simp [required]

theorem optionalOf_snoc_declared (fresh : group ∉ groupsOf placed)
    (declared : name ∈ optionalOf placed) :
    optionalOf (placed ++ [(some group, name)]) = optionalOf placed := by
  have old : name ∈ firstOfGroups placed := List.mem_eraseDups.1 (List.mem_filter.1 declared).1
  unfold optionalOf
  rw [firstOfGroups_snoc_new fresh, requiredOf_snoc_inside, eraseDups_snoc_of_mem old]

theorem optionalOf_snoc_new (fresh : group ∉ groupsOf placed)
    (unrequired : name ∉ requiredOf placed) (undeclared : name ∉ optionalOf placed) :
    optionalOf (placed ++ [(some group, name)]) = optionalOf placed ++ [name] := by
  have new : name ∉ firstOfGroups placed := fun old =>
    undeclared (List.mem_filter.2 ⟨List.mem_eraseDups.2 old, by simpa using unrequired⟩)
  unfold optionalOf
  rw [firstOfGroups_snoc_new fresh, requiredOf_snoc_inside, eraseDups_snoc_of_not_mem new,
    List.filter_append]
  simp [unrequired]

end Snoc

/-- No parameter is declared twice, and none both required and optional. -/
theorem Phrase.distinct (phrase : Phrase) :
    (phrase.descriptor.required ++ phrase.descriptor.optional).Nodup := by
  refine List.nodup_append.2 ⟨nodup_eraseDups _, nodup_optionalOf, fun name required other mem => ?_⟩
  rintro rfl
  have unrequired := (List.mem_filter.1 mem).2
  exact of_decide_eq_true unrequired required

end Bindery.Synopsis
