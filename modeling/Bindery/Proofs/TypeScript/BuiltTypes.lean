import Bindery.Proofs.Json.Numbers
import Bindery.Proofs.TypeScript.Making
import Bindery.Proofs.TypeScript.Unions

/-!
# Types that schemas have

Of all type expressions only some are types of schemas: what is written as it is is one of six words,
a union has no single member and none that is a union itself, and the numbers in literals are
canonical, as they are in the schema.
-/

namespace Bindery.TypeScript
set_option autoImplicit false

open Json (CanonicalNumbers Pointer)

/-- The types that schemas have. -/
inductive Built : TypeExpr → Prop
  | raw {text : String} (known : text ∈ typeWords) : Built (.raw text)
  | literal {value : Json} (numbers : CanonicalNumbers value) : Built (.literal value)
  | array {element : TypeExpr} (inner : Built element) : Built (.array element)
  | union {members : List TypeExpr} (several : members.length ≠ 1)
      (inner : ∀ type ∈ members, Built type) (flat : ∀ type ∈ members, ∀ nested, type ≠ .union nested) :
      Built (.union members)
  | object {fields : List Field} (inner : ∀ field ∈ fields, Built field.2) : Built (.object fields)
  | record {value : TypeExpr} (inner : Built value) : Built (.record value)

/-! ## Unions -/

/-- What a built type brings into a union is built and no union. -/
theorem Built.members {type member : TypeExpr} (built : Built type) (mem : member ∈ type.members) :
    Built member ∧ ∀ nested, member ≠ .union nested := by
  cases type with
  | union members =>
    cases built with
    | union several inner flat => exact ⟨inner member mem, flat member mem⟩
  | _ =>
    obtain rfl := List.mem_singleton.1 mem
    exact ⟨built, by simp⟩

theorem built_unionOf {types : List TypeExpr} (each : ∀ type ∈ types, Built type) :
    Built (.unionOf types) := by
  have brought : ∀ member ∈ types.flatMap TypeExpr.members,
      Built member ∧ ∀ nested, member ≠ .union nested := by
    intro member mem
    obtain ⟨type, here, inside⟩ := List.mem_flatMap.1 mem
    exact (each type here).members inside
  rcases TypeExpr.unionOf_cases types with single | ⟨several, whole, length, among, -⟩
  · exact (brought _ single).1
  · rw [whole]
    exact .union length (fun type mem => (brought type (among mem)).1) fun type mem =>
      (brought type (among mem)).2

theorem kept_built : Kept CanonicalNumbers Built where
  item := Json.canonicalNumbers_array.1
  field := Json.canonicalNumbers_object.1
  raw := .raw
  literal := .literal
  array := .array
  unionOf := built_unionOf
  object := .object
  record := .record

/-- **The type of a schema is built.** -/
theorem built_typeOfNode {place : Pointer} {node : Json} {type : TypeExpr}
    (numbers : CanonicalNumbers node) (typed : typeOfNode place node = .ok type) : Built type :=
  kept_built.of_typeOfNode numbers typed

end Bindery.TypeScript
