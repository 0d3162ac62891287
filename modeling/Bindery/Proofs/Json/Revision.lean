import Bindery.Json.Pointer

/-!
# Revised values

A revision of a value leaves out what stands at some of its places and writes some of its strings
anew. Places are those of the value as it was given, and all that is not mentioned stays as it is:
the order of items and fields, every key, and every other value.
-/

namespace Bindery.Json
set_option autoImplicit false

section

variable (gone : Pointer → Prop) [DecidablePred gone] (rewrite : Pointer → String → String)

mutual

/-- A value at a place, without what stands at the places of `gone` and with every string written
as `rewrite` says for its place. -/
def revised (place : Pointer) : Json → Json
  | .string s => .string (rewrite place s)
  | .array items => .array (revisedItems place 0 items)
  | .object fields => .object (revisedFields place fields)
  | other => other
termination_by structural value => value

/-- The items of an array that stay, the first item being at `position`. -/
def revisedItems (place : Pointer) (position : Nat) : List Json → List Json
  | [] => []
  | item :: rest =>
    if gone (place.item position) then revisedItems place (position + 1) rest
    else revised (place.item position) item :: revisedItems place (position + 1) rest
termination_by structural items => items

/-- The fields of an object that stay. -/
def revisedFields (place : Pointer) : List (String × Json) → List (String × Json)
  | [] => []
  | (key, value) :: rest =>
    if gone (place.child key) then revisedFields place rest
    else (key, revised (place.child key) value) :: revisedFields place rest
termination_by structural fields => fields

end

theorem revisedItems_eq (place : Pointer) (position : Nat) (items : List Json) :
    revisedItems gone rewrite place position items =
      (items.zipIdx position).filterMap fun item =>
        if gone (place.item item.2) then none
        else some (revised gone rewrite (place.item item.2) item.1) := by
  induction items generalizing position with
  | nil => rfl
  | cons item rest ih =>
    rw [revisedItems, List.zipIdx_cons, List.filterMap_cons, ih]
    by_cases left : gone (place.item position)
    · simp only [if_pos left]
    · simp only [if_neg left]

theorem revisedFields_eq (place : Pointer) (fields : List (String × Json)) :
    revisedFields gone rewrite place fields =
      fields.filterMap fun field =>
        if gone (place.child field.1) then none
        else some (field.1, revised gone rewrite (place.child field.1) field.2) := by
  induction fields with
  | nil => rfl
  | cons field rest ih =>
    rw [revisedFields, List.filterMap_cons, ih]
    by_cases left : gone (place.child field.1)
    · simp only [if_pos left]
    · simp only [if_neg left]

end

end Bindery.Json
