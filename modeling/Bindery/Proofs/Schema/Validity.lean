import Bindery.Proofs.Json.Depth
import Bindery.Proofs.Json.Equality

/-!
# Valid values

Which values are valid against a schema. Each keyword of an object schema restricts the values of
one kind and says nothing of others; a value is valid if it `Meets` all keywords. What patterns a
name fits and what further keywords ask is left to a `Dialect`.
-/

namespace Bindery.Schema
set_option autoImplicit false

/-- What validity leaves open. -/
structure Dialect where
  /-- Whether a name fits a pattern. -/
  fits : (pattern name : String) → Prop
  /-- What the keywords of a node that are not treated here ask of a value. -/
  others : List (String × Json) → Json → Prop

/-- A value has a tag. A number with a fraction of zero is an integer, however it is written. -/
def HasTag (tag : String) : Json → Prop
  | .null => tag = "null"
  | .bool _ => tag = "boolean"
  | .number n => tag = "number" ∨ (tag = "integer" ∧ ∃ i : ℤ, n.value = i)
  | .string _ => tag = "string"
  | .array _ => tag = "array"
  | .object _ => tag = "object"

/-- The value of a `type` keyword and the tags it lists. -/
inductive Lists : Json → List String → Prop
  | one (tag : String) : Lists (.string tag) [tag]
  | several (tags : List String) : Lists (.array (tags.map .string)) tags

/-- A member of an object is none of the node's properties and fits none of its patterns. -/
def Additional (dialect : Dialect) (fields : List (String × Json)) (name : String) : Prop :=
  (∀ entries, fields.lookup "properties" = some (.object entries) → name ∉ entries.map (·.1)) ∧
    ∀ patterns, fields.lookup "patternProperties" = some (.object patterns) →
      ∀ entry ∈ patterns, ¬dialect.fits entry.1 name

/-- A value meets all keywords of a node, given which values are valid against the nodes inside. -/
structure Meets (dialect : Dialect) (valid : Json → Json → Prop) (fields : List (String × Json))
    (value : Json) : Prop where
  const : ∀ literal, fields.lookup "const" = some literal → literal.Equal value
  enum : ∀ literals, fields.lookup "enum" = some (.array literals) →
    ∃ literal ∈ literals, literal.Equal value
  oneOf : ∀ branches, fields.lookup "oneOf" = some (.array branches) →
    ∃! position : Fin branches.length, valid branches[position] value
  anyOf : ∀ branches, fields.lookup "anyOf" = some (.array branches) →
    ∃ branch ∈ branches, valid branch value
  type : ∀ tags names, fields.lookup "type" = some tags → Lists tags names →
    ∃ tag ∈ names, HasTag tag value
  required : ∀ names members, fields.lookup "required" = some (.array names) →
    value = .object members → ∀ name, .string name ∈ names → (members.lookup name).isSome
  properties : ∀ entries members, fields.lookup "properties" = some (.object entries) →
    value = .object members → ∀ entry ∈ entries, ∀ member,
      members.lookup entry.1 = some member → valid entry.2 member
  additionalProperties : ∀ extra members, fields.lookup "additionalProperties" = some extra →
    value = .object members → ∀ member ∈ members,
      Additional dialect fields member.1 → valid extra member.2
  items : ∀ schema items, fields.lookup "items" = some schema → (∀ schemas, schema ≠ .array schemas) →
    value = .array items → ∀ item ∈ items, valid schema item
  tuple : ∀ schemas items, fields.lookup "items" = some (.array schemas) → value = .array items →
    ∀ (position : Nat) schema item, schemas[position]? = some schema →
      items[position]? = some item → valid schema item
  others : dialect.others fields value

/-- Validity against schemas of fewer than `depth` levels. -/
def validToDepth (dialect : Dialect) : Nat → Json → Json → Prop
  | depth + 1, .object fields, value => Meets dialect (validToDepth dialect depth) fields value
  | _ + 1, .bool accepts, _ => accepts = true
  | _, _, _ => False

/-- A value is valid against a schema. -/
def Valid (dialect : Dialect) (schema value : Json) : Prop :=
  validToDepth dialect (schema.depth + 1) schema value

section Depth

variable {dialect : Dialect}

/-- Only validity against the nodes inside a node matters to it. -/
theorem Meets.mono {valid valid' : Json → Json → Prop} {fields : List (String × Json)}
    (same : ∀ part : Json, part.depth < (Json.object fields).depth → ∀ value,
      valid part value ↔ valid' part value) {value : Json}
    (meets : Meets dialect valid fields value) : Meets dialect valid' fields value where
  const := meets.const
  enum := meets.enum
  oneOf branches found := by
    have part (position : Fin branches.length) :
        branches[position].depth < (Json.object fields).depth :=
      Nat.lt_trans (Json.depth_item_lt (List.getElem_mem position.2)) (Json.depth_lookup_lt found)
    simpa only [same _ (part _)] using meets.oneOf branches found
  anyOf branches found := by
    obtain ⟨branch, mem, holds⟩ := meets.anyOf branches found
    have part := Nat.lt_trans (Json.depth_item_lt mem) (Json.depth_lookup_lt found)
    exact ⟨branch, mem, (same branch part value).1 holds⟩
  type := meets.type
  required := meets.required
  properties entries members found object entry mem member there :=
    have part := Nat.lt_trans (Json.depth_field_lt mem) (Json.depth_lookup_lt found)
    (same entry.2 part member).1 (meets.properties entries members found object entry mem member there)
  additionalProperties extra members found object member mem additional :=
    (same extra (Json.depth_lookup_lt found) member.2).1
      (meets.additionalProperties extra members found object member mem additional)
  items schema items found single array item mem :=
    (same schema (Json.depth_lookup_lt found) item).1
      (meets.items schema items found single array item mem)
  tuple schemas items found array position schema item here there :=
    have part := Nat.lt_trans (Json.depth_item_lt (List.mem_of_getElem? here))
      (Json.depth_lookup_lt found)
    (same schema part item).1 (meets.tuple schemas items found array position schema item here there)
  others := meets.others

theorem validToDepth_iff {depth depth' : Nat} {schema : Json} (less : schema.depth < depth)
    (less' : schema.depth < depth') (value : Json) :
    validToDepth dialect depth schema value ↔ validToDepth dialect depth' schema value := by
  induction schema using Json.inductDepth generalizing depth depth' value with
  | step schema ih =>
    obtain ⟨depth, rfl⟩ : ∃ d, depth = d + 1 := ⟨depth - 1, by omega⟩
    obtain ⟨depth', rfl⟩ : ∃ d, depth' = d + 1 := ⟨depth' - 1, by omega⟩
    cases schema with
    | object fields =>
      constructor
      · apply Meets.mono
        intro part deeper value
        exact ih part deeper (by omega) (by omega) value
      · apply Meets.mono
        intro part deeper value
        exact ih part deeper (by omega) (by omega) value
    | _ => rfl

/-- A value is valid against an object schema if it meets all its keywords. -/
theorem valid_object {fields : List (String × Json)} {value : Json} :
    Valid dialect (.object fields) value ↔ Meets dialect (Valid dialect) fields value := by
  constructor
  · apply Meets.mono
    intro part deeper value
    exact validToDepth_iff deeper (Nat.lt_succ_self part.depth) value
  · apply Meets.mono
    intro part deeper value
    exact validToDepth_iff (Nat.lt_succ_self part.depth) deeper value

@[simp]
theorem valid_bool {accepts : Bool} {value : Json} :
    Valid dialect (.bool accepts) value ↔ accepts = true :=
  Iff.rfl

end Depth

end Bindery.Schema
