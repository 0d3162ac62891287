import Bindery.Proofs.TypeScript.Typing
import Bindery.Schema.TagTable

/-!
# Where a defect stands

If a schema has no type, then a node inside it shows why: its own value, or the value of one of its
keywords, has the stated defect, and the defect's place is the place of that value.
-/

namespace Bindery.TypeScript
set_option autoImplicit false

open Json (Pointer)
open Schema (genericTags)

/-- The defects that a node itself shows. -/
inductive Shows (place : Pointer) : Json → Misfit → Prop
  | notANode {node : Json} (noBool : ∀ b, node ≠ .bool b) (noObject : ∀ fields, node ≠ .object fields) :
      Shows place node ⟨place, .notANode node⟩
  | notAnArray {fields : List (String × Json)} {keyword : String} {value : Json}
      (among : keyword ∈ ["enum", "oneOf", "anyOf"]) (found : fields.lookup keyword = some value)
      (shape : ∀ items, value ≠ .array items) :
      Shows place (.object fields) ⟨place.child keyword, .notAnArray keyword⟩
  | typeShape {fields : List (String × Json)} {value : Json}
      (found : fields.lookup "type" = some value) (noTag : ∀ tag, value ≠ .string tag)
      (noTags : ∀ items, value = .array items → ∃ item ∈ items, ∀ tag, item ≠ .string tag) :
      Shows place (.object fields) ⟨place.child "type", .typeShape⟩
  | unknownType {fields : List (String × Json)} {value : Json} {tag : String}
      (found : fields.lookup "type" = some value)
      (mem : value = .string tag ∨ ∃ items, value = .array items ∧ .string tag ∈ items)
      (unknown : tag ∉ genericTags) :
      Shows place (.object fields) ⟨place.child "type", .unknownType tag⟩
  | requiredShape {fields : List (String × Json)} {value : Json}
      (found : fields.lookup "required" = some value)
      (shape : ∀ items, value = .array items → ∃ item ∈ items, ∀ name, item ≠ .string name) :
      Shows place (.object fields) ⟨place.child "required", .requiredShape⟩
  | propertiesShape {fields : List (String × Json)} {value : Json}
      (found : fields.lookup "properties" = some value) (shape : ∀ entries, value ≠ .object entries) :
      Shows place (.object fields) ⟨place.child "properties", .propertiesShape⟩

/-- Why an object schema has no type: a defect it shows, or that of a node it asks for. -/
def Fails (typing : Typing) (place : Pointer) (fields : List (String × Json)) (misfit : Misfit) :
    Prop :=
  Shows place (.object fields) misfit ∨
    ∃ spot node, Asks place fields spot node ∧ typing spot node = .error misfit

section Failure

variable {typing : Typing} {place : Pointer} {fields : List (String × Json)} {misfit : Misfit}

theorem fails_of_requiredNames (failed : requiredNames place fields = .error misfit) :
    Fails typing place fields misfit := by
  unfold requiredNames at failed
  split at failed
  · cases failed
  · next items found =>
    obtain ⟨item, mem, failed⟩ := mem_of_mapM_error failed
    split at failed
    · cases failed
    · next noName =>
      cases failed
      refine Or.inl (.requiredShape found fun items' same => ?_)
      cases same
      exact ⟨item, mem, noName⟩
  · next value noItems found =>
    cases failed
    exact Or.inl (.requiredShape found fun items same => (noItems items same).elim)

theorem failing_item {items : List Json} (failed : typesOfItems typing place 0 items = .error misfit) :
    ∃ position item, items[position]? = some item ∧
      typing (place.item position) item = .error misfit := by
  rw [typesOfItems_eq] at failed
  obtain ⟨item, mem, failed⟩ := mem_of_mapM_error failed
  exact ⟨item.2, item.1, List.mem_zipIdx_iff_getElem?.1 mem, failed⟩

theorem fails_of_alternatives {keyword : String} {branches : Json}
    (among : keyword ∈ ["oneOf", "anyOf"]) (found : fields.lookup keyword = some branches)
    (failed : alternatives typing place keyword branches = .error misfit) :
    Fails typing place fields misfit := by
  unfold alternatives at failed
  split at failed
  · obtain ⟨position, branch, here, failed⟩ := failing_item (map_eq_error.1 failed)
    exact Or.inr ⟨_, branch, .alternative among found here, failed⟩
  · next noArray =>
    cases failed
    exact Or.inl (.notAnArray (List.mem_cons_of_mem _ among) found noArray)

theorem fails_of_propertyFields {required : List String}
    (failed : propertyFields typing place required fields = .error misfit) :
    Fails typing place fields misfit := by
  unfold propertyFields at failed
  split at failed
  · next entries found =>
    rw [ownFields_eq] at failed
    obtain ⟨entry, mem, failed⟩ := mem_of_mapM_error failed
    exact Or.inr ⟨_, entry.2, .property found mem, map_eq_error.1 failed⟩
  · next value noEntries found =>
    cases failed
    exact Or.inl (.propertiesShape found noEntries)
  · cases failed

theorem failing_declared {ds : List Declared} {known : List Field}
    (failed : mergeDeclared typing known ds = .error misfit) :
    ∃ d ∈ ds, typing d.place d.schema = .error misfit := by
  induction ds generalizing known with
  | nil => cases failed
  | cons d rest ih =>
    unfold mergeDeclared at failed
    split at failed
    · obtain ⟨other, mem, failed⟩ := ih failed
      exact ⟨other, List.mem_cons_of_mem d mem, failed⟩
    · rcases bind_eq_error.1 failed with first | ⟨type, -, failed⟩
      · exact ⟨d, List.mem_cons_self, first⟩
      · obtain ⟨other, mem, failed⟩ := ih failed
        exact ⟨other, List.mem_cons_of_mem d mem, failed⟩

theorem fails_of_fieldlessType (failed : fieldlessType typing place fields = .error misfit) :
    Fails typing place fields misfit := by
  unfold fieldlessType at failed
  split at failed
  · cases failed
  · next extra found => exact Or.inr ⟨_, _, .extra found, map_eq_error.1 failed⟩
  · cases failed

theorem fails_of_objectType (failed : objectType typing place fields = .error misfit) :
    Fails typing place fields misfit := by
  unfold objectType at failed
  rcases bind_eq_error.1 failed with failed | ⟨required, -, failed⟩
  · exact fails_of_requiredNames failed
  rcases bind_eq_error.1 failed with failed | ⟨own, -, failed⟩
  · exact fails_of_propertyFields failed
  rcases bind_eq_error.1 failed with failed | ⟨all, -, failed⟩
  · obtain ⟨d, mem, failed⟩ := failing_declared failed
    exact Or.inr ⟨_, _, .declared mem, failed⟩
  split at failed
  · exact fails_of_fieldlessType failed
  · cases failed

theorem fails_of_arrayType (failed : arrayType typing place fields = .error misfit) :
    Fails typing place fields misfit := by
  unfold arrayType at failed
  split at failed
  · cases failed
  · next items found =>
    rcases bind_eq_error.1 failed with failed | ⟨types, -, done⟩
    · obtain ⟨position, item, here, failed⟩ := failing_item failed
      exact Or.inr ⟨_, item, .tuple found here, failed⟩
    · cases done
  · next schema single found =>
    exact Or.inr ⟨_, schema, .items found single, map_eq_error.1 failed⟩

theorem fails_of_tagType {value : Json} {tag : String} (found : fields.lookup "type" = some value)
    (mem : value = .string tag ∨ ∃ items, value = .array items ∧ .string tag ∈ items)
    (failed : tagType typing place fields tag = .error misfit) :
    Fails typing place fields misfit := by
  unfold tagType at failed
  split at failed
  · cases failed
  split at failed
  · cases failed
  split at failed
  · cases failed
  split at failed
  · cases failed
  split at failed
  · exact fails_of_objectType failed
  split at failed
  · exact fails_of_arrayType failed
  cases failed
  refine Or.inl (.unknownType found mem ?_)
  simp only [genericTags, List.mem_cons, List.not_mem_nil, or_false]
  tauto

theorem fails_of_tagTypes {all tags : List Json} (found : fields.lookup "type" = some (.array all))
    (among : ∀ tag ∈ tags, tag ∈ all) (failed : tagTypes typing place fields tags = .error misfit) :
    Fails typing place fields misfit := by
  induction tags with
  | nil => cases failed
  | cons tag rest ih =>
    obtain ⟨here, others⟩ := List.forall_mem_cons.1 among
    cases tag with
    | string name =>
      rcases bind_eq_error.1 failed with failed | ⟨type, -, failed⟩
      · exact fails_of_tagType found (Or.inr ⟨all, rfl, here⟩) failed
      rcases bind_eq_error.1 failed with failed | ⟨types, -, done⟩
      · exact ih others failed
      · cases done
    | _ =>
      cases failed
      refine Or.inl (.typeShape found (by simp) fun items same => ?_)
      cases same
      exact ⟨_, here, by simp⟩

theorem fails_of_taggedType (failed : taggedType typing place fields = .error misfit) :
    Fails typing place fields misfit := by
  unfold taggedType at failed
  split at failed
  · next tag found => exact fails_of_tagType found (Or.inl rfl) failed
  · next tags found => exact fails_of_tagTypes found (fun _ mem => mem) (map_eq_error.1 failed)
  · next value noTag noTags found =>
    cases failed
    exact Or.inl (.typeShape found noTag fun items same => (noTags items same).elim)
  · split at failed
    · exact fails_of_objectType failed
    split at failed
    · exact fails_of_arrayType failed
    · cases failed

theorem fails_of_fieldsType (failed : fieldsType typing place fields = .error misfit) :
    Fails typing place fields misfit := by
  unfold fieldsType at failed
  split at failed
  · cases failed
  · cases failed
  · next value noArray _ found =>
    cases failed
    exact Or.inl (.notAnArray (by simp) found noArray)
  · next found => exact fails_of_alternatives (by simp) found failed
  · next found => exact fails_of_alternatives (by simp) found failed
  · exact fails_of_taggedType failed

end Failure

/-- The nodes whose types are asked for, directly or through others, to find the type of a node. -/
inductive Within : Pointer → Json → Pointer → Json → Prop
  | here (place : Pointer) (node : Json) : Within place node place node
  | inside {place spot spot' : Pointer} {fields : List (String × Json)} {node inner : Json}
      (asks : Asks place fields spot node) (deeper : Within spot node spot' inner) :
      Within place (.object fields) spot' inner

theorem InheritedAs.within {P : Schema.Role → Pointer → Json → Prop} (h : InheritedAs P)
    {place spot : Pointer} {node inner : Json} (here : P .node place node)
    (inside : Within place node spot inner) : P .node spot inner := by
  induction inside with
  | here => exact here
  | inside asks _ ih => exact ih (h.asked here asks)

/-- **What keeps a node from having a type is a defect that a node within it shows.** -/
theorem shows_of_typeOfNode_error {place : Pointer} {node : Json} {misfit : Misfit}
    (failed : typeOfNode place node = .error misfit) :
    ∃ spot inner, Within place node spot inner ∧ Shows spot inner misfit := by
  induction node using Json.inductDepth generalizing place with
  | step node ih =>
    cases node with
    | object fields =>
      rw [typeOfNode_object] at failed
      rcases fails_of_fieldsType failed with shows | ⟨spot, node, asks, failed⟩
      · exact ⟨place, _, .here place _, shows⟩
      · obtain ⟨spot', inner, within, shows⟩ := ih node asks.depth_lt failed
        exact ⟨spot', inner, .inside asks within, shows⟩
    | bool value => cases value <;> cases failed
    | null | number _ | string _ | array _ =>
      cases failed
      exact ⟨place, _, .here place _, .notANode (by simp) (by simp)⟩

end Bindery.TypeScript
