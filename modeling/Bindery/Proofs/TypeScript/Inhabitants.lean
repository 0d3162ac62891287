import Bindery.Proofs.Json.Equality
import Bindery.TypeScript.TypeExpr

/-!
# The values of a type

Which JSON values a type expression has, and that a union has those of its members: opening nested
unions and dropping repeated members loses none.
-/

namespace Bindery.TypeScript
set_option autoImplicit false

/-- Induction on types, with the members of a union and the types of an object's fields. -/
@[elab_as_elim]
theorem TypeExpr.induct {motive : TypeExpr → Prop} (raw : ∀ text, motive (.raw text))
    (literal : ∀ value, motive (.literal value))
    (array : ∀ element, motive element → motive (.array element))
    (union : ∀ members, (∀ type ∈ members, motive type) → motive (.union members))
    (object : ∀ fields, (∀ field ∈ fields, motive field.2) → motive (.object fields))
    (record : ∀ value, motive value → motive (.record value)) (type : TypeExpr) : motive type :=
  match type with
  | .raw text => raw text
  | .literal value => literal value
  | .array element => array element (induct raw literal array union object record element)
  | .union members =>
    union members fun type _ => induct raw literal array union object record type
  | .object fields =>
    object fields fun field _ => induct raw literal array union object record field.2
  | .record value => record value (induct raw literal array union object record value)
termination_by type
decreasing_by
  · simp
  · next mem =>
    have := List.sizeOf_lt_of_mem mem
    simp
    omega
  · next mem =>
    have smaller := List.sizeOf_lt_of_mem mem
    obtain ⟨head, type⟩ := field
    simp at smaller ⊢
    omega
  · simp

/-- The values of the types that are written as they are. No value is known for any other text. -/
def RawValue (text : String) (value : Json) : Prop :=
  (text = "unknown") ∨
    match value with
    | .null => text = "null"
    | .bool _ => text = "boolean"
    | .number _ => text = "number"
    | .string _ => text = "string"
    | .array _ => False
    | .object _ => False

mutual

/-- A value is of a type. -/
def Inhabits : TypeExpr → Json → Prop
  | .raw text, value => RawValue text value
  | .literal literal, value => literal.Equal value
  | .array element, value => ∃ items, value = .array items ∧ ∀ item ∈ items, Inhabits element item
  | .union members, value => InhabitsSome members value
  | .object [], value => value = .object []
  | .object (field :: fields), value =>
    ∃ members, value = .object members ∧ HasFields (field :: fields) members
  | .record type, value =>
    ∃ members, value = .object members ∧ ∀ member ∈ members, Inhabits type member.2
termination_by structural type => type

/-- A value is of one of the types. -/
def InhabitsSome : List TypeExpr → Json → Prop
  | [], _ => False
  | type :: rest, value => Inhabits type value ∨ InhabitsSome rest value
termination_by structural types => types

/-- Each of these fields is among the members and of its type, or is missing and may be. -/
def HasFields : List (FieldHead × TypeExpr) → List (String × Json) → Prop
  | [], _ => True
  | (head, type) :: rest, members =>
    (∀ value, members.lookup head.name = some value → Inhabits type value) ∧
      (members.lookup head.name = none → head.optional = true) ∧ HasFields rest members
termination_by structural fields => fields

end

theorem inhabitsSome_iff {types : List TypeExpr} {value : Json} :
    InhabitsSome types value ↔ ∃ type ∈ types, Inhabits type value := by
  induction types with
  | nil => simp [InhabitsSome]
  | cons type rest ih => simp [InhabitsSome, ih]

theorem hasFields_iff {fields : List (FieldHead × TypeExpr)} {members : List (String × Json)} :
    HasFields fields members ↔ ∀ field ∈ fields,
      (∀ value, members.lookup field.1.name = some value → Inhabits field.2 value) ∧
        (members.lookup field.1.name = none → field.1.optional = true) := by
  induction fields with
  | nil => simp [HasFields]
  | cons field rest ih => simp [HasFields, ih, and_assoc]

theorem inhabits_object {fields : List Field} (some : fields ≠ []) {value : Json} :
    Inhabits (.object fields) value ↔
      ∃ members, value = .object members ∧ HasFields fields members := by
  cases fields with
  | nil => contradiction
  | cons field fields => rw [Inhabits]

@[simp]
theorem inhabits_unknown (value : Json) : Inhabits .unknown value :=
  Or.inl rfl

/-! ## Types that count as one -/

section Same

variable {value : Json}

theorem inhabitsSome_of_sameMembers {ss ts : List TypeExpr}
    (each : ∀ s ∈ ss, ∀ t, s.same t = true → Inhabits t value → Inhabits s value)
    (same : TypeExpr.sameMembers ss ts = true) (holds : InhabitsSome ts value) :
    InhabitsSome ss value := by
  induction ss generalizing ts with
  | nil =>
    cases ts with
    | nil => exact holds
    | cons t ts => cases same
  | cons s ss ih =>
    obtain ⟨here, each⟩ := List.forall_mem_cons.1 each
    cases ts with
    | nil => cases same
    | cons t ts =>
      obtain ⟨first, rest⟩ := Bool.and_eq_true_iff.1 same
      exact holds.imp (here t first) (ih each rest)

theorem hasFields_of_sameFields {fs gs : List Field} {members : List (String × Json)}
    (each : ∀ f ∈ fs, ∀ t value, f.2.same t = true → Inhabits t value → Inhabits f.2 value)
    (same : TypeExpr.sameFields fs gs = true) (holds : HasFields gs members) :
    HasFields fs members := by
  induction fs generalizing gs with
  | nil =>
    cases gs with
    | nil => exact holds
    | cons g gs => cases same
  | cons f fs ih =>
    obtain ⟨here, each⟩ := List.forall_mem_cons.1 each
    cases gs with
    | nil => cases same
    | cons g gs =>
      obtain ⟨first, rest⟩ := Bool.and_eq_true_iff.1 same
      obtain ⟨head, first⟩ := Bool.and_eq_true_iff.1 first
      have head : f.1 = g.1 := LawfulBEq.eq_of_beq head
      obtain ⟨present, missing, others⟩ := holds
      exact ⟨fun value found => here g.2 value first (present value (head ▸ found)),
        fun none => head ▸ missing (head ▸ none), ih each rest others⟩

/-- A value of a type is one of every type that counts as the same. -/
theorem inhabits_of_same {s t : TypeExpr} (same : s.same t = true) (holds : Inhabits t value) :
    Inhabits s value := by
  induction s using TypeExpr.induct generalizing t value with
  | raw text =>
    cases t with
    | raw text' =>
      rw [LawfulBEq.eq_of_beq (show (text == text') = true from same)]
      exact holds
    | _ => cases same
  | literal literal =>
    cases t with
    | literal other => exact Json.Equal.of_same same holds
    | _ => cases same
  | array element ih =>
    cases t with
    | array other =>
      obtain ⟨items, array, each⟩ := holds
      exact ⟨items, array, fun item mem => ih same (each item mem)⟩
    | _ => cases same
  | union members ih =>
    cases t with
    | union others =>
      exact inhabitsSome_of_sameMembers (fun s mem t => ih s mem) same holds
    | _ => cases same
  | object fields ih =>
    cases t with
    | object others =>
      cases fields with
      | nil =>
        cases others with
        | nil => exact holds
        | cons g gs => cases same
      | cons f fs =>
        cases others with
        | nil => cases same
        | cons g gs =>
          obtain ⟨members, object, each⟩ := holds
          exact ⟨members, object,
            hasFields_of_sameFields (fun f mem t value => ih f mem) same each⟩
    | _ => cases same
  | record type ih =>
    cases t with
    | record other =>
      obtain ⟨members, object, each⟩ := holds
      exact ⟨members, object, fun member mem => ih same (each member mem)⟩
    | _ => cases same

end Same

/-! ## Unions -/

section Union

variable {types seen : List TypeExpr} {value : Json}

theorem inhabits_insertNew {type : TypeExpr}
    (holds : Inhabits type value ∨ ∃ s ∈ seen, Inhabits s value) :
    ∃ s ∈ TypeExpr.insertNew seen type, Inhabits s value := by
  unfold TypeExpr.insertNew
  split
  · next known =>
    rcases holds with holds | old
    · obtain ⟨s, mem, same⟩ := List.any_eq_true.1 known
      exact ⟨s, mem, inhabits_of_same same holds⟩
    · exact old
  · rcases holds with holds | ⟨s, mem, holds⟩
    · exact ⟨type, by simp, holds⟩
    · exact ⟨s, by simp [mem], holds⟩

theorem inhabits_foldl_insertNew (seen : List TypeExpr)
    (holds : (∃ t ∈ types, Inhabits t value) ∨ ∃ s ∈ seen, Inhabits s value) :
    ∃ s ∈ types.foldl TypeExpr.insertNew seen, Inhabits s value := by
  induction types generalizing seen with
  | nil => simpa using holds
  | cons type rest ih =>
    apply ih
    rcases holds with ⟨t, mem, holds⟩ | old
    · rcases List.mem_cons.1 mem with rfl | later
      · exact Or.inr (inhabits_insertNew (Or.inl holds))
      · exact Or.inl ⟨t, later, holds⟩
    · exact Or.inr (inhabits_insertNew (Or.inr old))

theorem inhabits_members {type : TypeExpr} (holds : Inhabits type value) :
    ∃ t ∈ type.members, Inhabits t value := by
  cases type with
  | union inner => exact inhabitsSome_iff.1 holds
  | _ => exact ⟨_, List.mem_singleton.2 rfl, holds⟩

/-- **A union has the values of its members.** -/
theorem inhabits_unionOf (holds : ∃ type ∈ types, Inhabits type value) :
    Inhabits (.unionOf types) value := by
  obtain ⟨type, mem, holds⟩ := holds
  obtain ⟨t, inside, holds⟩ := inhabits_members holds
  have opened : ∃ t ∈ types.flatMap TypeExpr.members, Inhabits t value :=
    ⟨t, List.mem_flatMap.2 ⟨type, mem, inside⟩, holds⟩
  obtain ⟨s, mem, holds⟩ := inhabits_foldl_insertNew [] (Or.inl opened)
  unfold TypeExpr.unionOf
  split
  · next single equal =>
    rw [equal, List.mem_singleton] at mem
    exact mem ▸ holds
  · rw [Inhabits]
    exact inhabitsSome_iff.2 ⟨s, mem, holds⟩

end Union

end Bindery.TypeScript
