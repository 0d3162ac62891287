import Bindery.Proofs.Schema.Changes
import Bindery.Proofs.TypeScript.Defects

/-!
# Errors point at their causes

Every node that is asked for to find the type of a schema stands where its place says, and so does
each value whose defect is reported. The text of an error's place therefore resolves in the schema,
and the value it resolves to has the defect that the error's words state.
-/

namespace Bindery.TypeScript
set_option autoImplicit false

open Json (Pointer DistinctKeys)
open Schema (at?_child genericTags)

section Places

variable {schema : Json} {place spot : Pointer} {fields : List (String × Json)}

theorem at?_item {items : List Json} (here : schema.at? place = some (.array items))
    (position : Nat) : schema.at? (place.item position) = items[position]? := by
  rw [Pointer.item, at?_child, here, Option.bind_some, Schema.step?_item]

/-- A value that stands at a place of a schema. Its objects have distinct keys. -/
structure StandsAt (schema : Json) (place : Pointer) (value : Json) : Prop where
  found : schema.at? place = some value
  keys : DistinctKeys value

namespace StandsAt

theorem root (keys : DistinctKeys schema) : StandsAt schema [] schema :=
  ⟨rfl, keys⟩

theorem key (here : StandsAt schema place (.object fields)) {key : String} {value : Json}
    (found : fields.lookup key = some value) : StandsAt schema (place.child key) value := by
  refine ⟨?_, (Json.distinctKeys_object.1 here.keys).2 _ (mem_of_lookup found)⟩
  rw [at?_child, here.found, Option.bind_some]
  exact found

theorem field (here : StandsAt schema place (.object fields)) {field : String × Json}
    (mem : field ∈ fields) : StandsAt schema (place.child field.1) field.2 :=
  here.key (lookup_of_mem (Json.distinctKeys_object.1 here.keys).1 mem)

theorem item {items : List Json} (here : StandsAt schema place (.array items)) {position : Nat}
    {item : Json} (there : items[position]? = some item) :
    StandsAt schema (place.item position) item :=
  ⟨(at?_item here.found position).trans there,
    Json.distinctKeys_array.1 here.keys item (List.mem_of_getElem? there)⟩

theorem inherited : Inherited (StandsAt schema) where
  item here there := here.item there
  field here mem := here.field mem

end StandsAt

end Places

/-! ## Errors in words -/

/-- A value is an array of strings. -/
def IsNameList (value : Json) : Prop :=
  ∃ names : List String, value = .array (names.map .string)

/-- What is wrong with the value at a place, in the words of an error. -/
inductive Explains : Pointer → Json → String → Prop
  | null (place : Pointer) : Explains place .null "expected a schema object, found null"
  | number (place : Pointer) (n : Json.Number) :
      Explains place (.number n) "expected a schema object, found a number"
  | string (place : Pointer) (s : String) :
      Explains place (.string s) "expected a schema object, found a string"
  | array (place : Pointer) (items : List Json) :
      Explains place (.array items) "expected a schema object, found an array"
  | notAnArray (place : Pointer) {keyword : String} {value : Json}
      (among : keyword ∈ ["enum", "oneOf", "anyOf"]) (shape : ∀ items, value ≠ .array items) :
      Explains (place ++ [keyword]) value ("'" ++ keyword ++ "' must be an array")
  | typeShape (place : Pointer) {value : Json} (noTag : ∀ tag, value ≠ .string tag)
      (noTags : ¬IsNameList value) :
      Explains (place ++ ["type"]) value "'type' must be a string or an array of strings"
  | unknownType (place : Pointer) {value : Json} {tag : String}
      (mem : value = .string tag ∨ ∃ items, value = .array items ∧ .string tag ∈ items)
      (unknown : tag ∉ genericTags) :
      Explains (place ++ ["type"]) value ("unknown type '" ++ tag ++ "'")
  | requiredShape (place : Pointer) {value : Json} (noNames : ¬IsNameList value) :
      Explains (place ++ ["required"]) value "'required' must be an array of strings"
  | propertiesShape (place : Pointer) {value : Json} (shape : ∀ entries, value ≠ .object entries) :
      Explains (place ++ ["properties"]) value "'properties' must be an object"

theorem not_isNameList {value : Json}
    (shape : ∀ items, value = .array items → ∃ item ∈ items, ∀ name, item ≠ .string name) :
    ¬IsNameList value := by
  rintro ⟨names, rfl⟩
  obtain ⟨item, mem, other⟩ := shape _ rfl
  obtain ⟨name, -, same⟩ := List.mem_map.1 mem
  exact other name same.symm

/-- A defect that a node shows is one of the value at the defect's place. -/
theorem explains_of_shows {schema node : Json} {spot : Pointer} {misfit : Misfit}
    (here : StandsAt schema spot node) (shows : Shows spot node misfit) :
    ∃ value, StandsAt schema misfit.place value ∧
      Explains misfit.place value misfit.defect.message := by
  cases shows with
  | notANode noBool noObject =>
    refine ⟨node, here, ?_⟩
    cases node with
    | null => exact .null spot
    | number n => exact .number spot n
    | string s => exact .string spot s
    | array items => exact .array spot items
    | bool b => exact absurd rfl (noBool b)
    | object fields => exact absurd rfl (noObject fields)
  | notAnArray among found shape => exact ⟨_, here.key found, .notAnArray spot among shape⟩
  | typeShape found noTag noTags =>
    exact ⟨_, here.key found, .typeShape spot noTag (not_isNameList noTags)⟩
  | unknownType found mem unknown => exact ⟨_, here.key found, .unknownType spot mem unknown⟩
  | requiredShape found shape =>
    exact ⟨_, here.key found, .requiredShape spot (not_isNameList shape)⟩
  | propertiesShape found shape => exact ⟨_, here.key found, .propertiesShape spot shape⟩

/-- **Every error points at its cause.** The text of its place resolves in the schema to a value that
has the defect stated. -/
theorem error_points_at_cause {name : String} {schema : Json} {error : TypeError}
    (keys : DistinctKeys schema) (failed : compile name schema = .error error) :
    ∃ value, schema.resolve? error.misfit.place.text = some value ∧
      Explains error.misfit.place value error.misfit.defect.message := by
  unfold compile at failed
  split at failed
  · cases failed
  · next misfit untyped =>
    cases failed
    obtain ⟨spot, inner, within, shows⟩ := shows_of_typeOfNode_error untyped
    have here : StandsAt schema spot inner := StandsAt.inherited.inRoles.within (.root keys) within
    obtain ⟨value, stands, explains⟩ := explains_of_shows here shows
    exact ⟨value, (Json.resolve?_text schema _).trans stands.found, explains⟩

/-- An unknown tag below a branch, behind a name with a slash and a tilde and an item of a list. -/
theorem error_points_at_cause_branch :
    let schema : Json := .object
      [("type", .string "object"),
        ("allOf", .array [.bool true, .object [("else", .object [("properties", .object
          [("a/b~c", .object [("items", .array [.object [],
            .object [("type", .array [.string "null", .string "u128"])]])])])])]])]
    let place : Pointer := ["allOf", "1", "else", "properties", "a/b~c", "items", "1", "type"]
    schema.DistinctKeys ∧
      compile "Result" schema = .error ⟨"Result", ⟨place, .unknownType "u128"⟩⟩ ∧
      place.text = "/allOf/1/else/properties/a~1b~0c/items/1/type" ∧
      ∃ value, schema.resolve? "/allOf/1/else/properties/a~1b~0c/items/1/type" = some value ∧
        Explains place value "unknown type 'u128'" := by
  intro schema place
  have keys : schema.DistinctKeys := by
    simp [schema]
  have failed : compile "Result" schema = .error ⟨"Result", ⟨place, .unknownType "u128"⟩⟩ := rfl
  have text : place.text = "/allOf/1/else/properties/a~1b~0c/items/1/type" := by decide
  refine ⟨keys, failed, text, ?_⟩
  exact error_points_at_cause keys failed

end Bindery.TypeScript
