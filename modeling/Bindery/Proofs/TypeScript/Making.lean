import Bindery.Proofs.TypeScript.Typing

/-!
# How types of schemas are made

The type of a schema is a word, a literal of a value in the schema, or made of the types of nodes
inside it: an array, a union, an object or a record. So a property that all these ways keep holds of
the type of every schema.
-/

namespace Bindery.TypeScript
set_option autoImplicit false

open Json (Pointer)

/-- The types that are written as they are. -/
def typeWords : List String := ["string", "number", "boolean", "null", "unknown", "never"]

/-- A property of types that all ways to make one keep, where the values in the schema have another. -/
structure Kept (given : Json → Prop) (made : TypeExpr → Prop) : Prop where
  item : ∀ {items}, given (.array items) → ∀ item ∈ items, given item
  field : ∀ {fields}, given (.object fields) → ∀ field ∈ fields, given field.2
  raw : ∀ {text}, text ∈ typeWords → made (.raw text)
  literal : ∀ {value}, given value → made (.literal value)
  array : ∀ {element}, made element → made (.array element)
  unionOf : ∀ {types : List TypeExpr}, (∀ type ∈ types, made type) → made (.unionOf types)
  object : ∀ {fields : List Field}, (∀ field ∈ fields, made field.2) → made (.object fields)
  record : ∀ {value}, made value → made (.record value)

namespace Kept

variable {given : Json → Prop} {made : TypeExpr → Prop} {typing : Typing} {place : Pointer}
  {fields : List (String × Json)} {type : TypeExpr}

theorem inherited (h : Kept given made) : Inherited fun _ => given where
  item whole there := h.item whole _ (List.mem_of_getElem? there)
  field whole mem := h.field whole _ mem

theorem typesOfItems {items : List Json} {types : List TypeExpr}
    (each : ∀ position item type, items[position]? = some item →
      typing (place.item position) item = .ok type → made type)
    (typed : typesOfItems typing place 0 items = .ok types) : ∀ type ∈ types, made type := by
  rw [typesOfItems_eq] at typed
  intro type mem
  obtain ⟨item, there, typed⟩ := exists_mem_of_mapM_right typed mem
  exact each item.2 item.1 type (List.mem_zipIdx_iff_getElem?.1 there) typed

theorem mergeDeclared {ds : List Declared} {known all : List Field}
    (each : ∀ d ∈ ds, ∀ type, typing d.place d.schema = .ok type → made type)
    (old : ∀ field ∈ known, made field.2)
    (typed : mergeDeclared typing known ds = .ok all) : ∀ field ∈ all, made field.2 := by
  induction ds generalizing known with
  | nil =>
    cases typed
    exact old
  | cons d rest ih =>
    obtain ⟨here, each⟩ := List.forall_mem_cons.1 each
    unfold TypeScript.mergeDeclared at typed
    split at typed
    · exact ih each old typed
    · obtain ⟨type, first, typed⟩ := bind_eq_ok.1 typed
      refine ih each ?_ typed
      exact List.forall_mem_append.2 ⟨old, List.forall_mem_singleton.2 (here type first)⟩

section Keywords

variable (h : Kept given made)
  (inner : ∀ spot node type, Asks place fields spot node → typing spot node = .ok type →
    made type)
include h inner

theorem alternatives {keyword : String} {branches : Json} (among : keyword ∈ ["oneOf", "anyOf"])
    (found : fields.lookup keyword = some branches)
    (typed : alternatives typing place keyword branches = .ok type) : made type := by
  unfold TypeScript.alternatives at typed
  split at typed
  · obtain ⟨types, listed, rfl⟩ := map_eq_ok.1 typed
    exact h.unionOf (typesOfItems
      (fun position item type here => inner _ item type (.alternative among found here)) listed)
  · cases typed

omit h in
theorem propertyFields {required : List String} {own : List Field}
    (typed : propertyFields typing place required fields = .ok own) :
    ∀ field ∈ own, made field.2 := by
  unfold TypeScript.propertyFields at typed
  split at typed
  · next entries found =>
    rw [ownFields_eq] at typed
    intro field mem
    obtain ⟨entry, there, entered⟩ := exists_mem_of_mapM_right typed mem
    obtain ⟨type, single, rfl⟩ := map_eq_ok.1 entered
    exact inner _ _ type (.property found there) single
  · cases typed
  · cases typed
    nofun

theorem fieldlessType (typed : fieldlessType typing place fields = .ok type) : made type := by
  unfold TypeScript.fieldlessType at typed
  split at typed
  · cases typed
    exact h.object nofun
  · next extra found =>
    obtain ⟨value, single, rfl⟩ := map_eq_ok.1 typed
    exact h.record (inner _ _ value (.extra found) single)
  · cases typed
    split
    · exact h.object nofun
    · exact h.record (h.raw (by decide))

theorem objectType (typed : objectType typing place fields = .ok type) : made type := by
  unfold TypeScript.objectType at typed
  obtain ⟨required, -, typed⟩ := bind_eq_ok.1 typed
  obtain ⟨own, properties, typed⟩ := bind_eq_ok.1 typed
  obtain ⟨all, branches, typed⟩ := bind_eq_ok.1 typed
  split at typed
  · exact h.fieldlessType inner typed
  · cases typed
    exact h.object (mergeDeclared (fun d mem type => inner _ _ type (.declared mem))
      (propertyFields inner properties) branches)

theorem arrayType (typed : arrayType typing place fields = .ok type) : made type := by
  unfold TypeScript.arrayType at typed
  split at typed
  · cases typed
    exact h.array (h.raw (by decide))
  · next items found =>
    obtain ⟨types, listed, done⟩ := bind_eq_ok.1 typed
    cases done
    exact h.array (h.unionOf (typesOfItems
      (fun position item type here => inner _ item type (.tuple found here)) listed))
  · next schema single found =>
    obtain ⟨element, inside, rfl⟩ := map_eq_ok.1 typed
    exact h.array (inner _ _ element (.items found single) inside)

theorem tagType {tag : String} (typed : tagType typing place fields tag = .ok type) :
    made type := by
  unfold TypeScript.tagType at typed
  split at typed
  · cases typed
    exact h.raw (by decide)
  split at typed
  · cases typed
    exact h.raw (by decide)
  split at typed
  · cases typed
    exact h.raw (by decide)
  split at typed
  · cases typed
    exact h.raw (by decide)
  split at typed
  · exact h.objectType inner typed
  split at typed
  · exact h.arrayType inner typed
  · cases typed

theorem tagTypes {tags : List Json} {types : List TypeExpr}
    (typed : tagTypes typing place fields tags = .ok types) : ∀ type ∈ types, made type := by
  induction tags generalizing types with
  | nil =>
    cases typed
    nofun
  | cons tag rest ih =>
    cases tag with
    | string name =>
      obtain ⟨type, first, typed⟩ := bind_eq_ok.1 typed
      obtain ⟨others, later, done⟩ := bind_eq_ok.1 typed
      cases done
      exact List.forall_mem_cons.2 ⟨h.tagType inner first, ih later⟩
    | _ => cases typed

theorem taggedType (typed : taggedType typing place fields = .ok type) : made type := by
  unfold TypeScript.taggedType at typed
  split at typed
  · exact h.tagType inner typed
  · obtain ⟨types, listed, rfl⟩ := map_eq_ok.1 typed
    exact h.unionOf (h.tagTypes inner listed)
  · cases typed
  · split at typed
    · exact h.objectType inner typed
    split at typed
    · exact h.arrayType inner typed
    · cases typed
      exact h.raw (by decide)

theorem fieldsType (whole : given (.object fields))
    (typed : fieldsType typing place fields = .ok type) : made type := by
  unfold TypeScript.fieldsType at typed
  split at typed
  · next found =>
    cases typed
    exact h.literal (h.field whole _ (mem_of_lookup found))
  · next values _ found =>
    cases typed
    refine h.unionOf fun type mem => ?_
    obtain ⟨value, there, rfl⟩ := List.mem_map.1 mem
    exact h.literal (h.item (h.field whole _ (mem_of_lookup found)) value there)
  · cases typed
  · next found => exact h.alternatives inner (by simp) found typed
  · next found => exact h.alternatives inner (by simp) found typed
  · exact h.taggedType inner typed

end Keywords

/-- **What all ways to make a type keep holds of the type of a schema.** -/
theorem of_typeOfNode (h : Kept given made) {node : Json} (whole : given node)
    (typed : typeOfNode place node = .ok type) : made type := by
  induction node using Json.inductDepth generalizing place type with
  | step node ih =>
    cases node with
    | object fields =>
      rw [typeOfNode_object] at typed
      refine h.fieldsType (fun spot inside type asks => ?_) whole typed
      exact ih inside asks.depth_lt (h.inherited.inRoles.asked whole asks)
    | bool accepts =>
      cases accepts with
      | false =>
        cases typed
        exact h.raw (by decide)
      | true =>
        cases typed
        exact h.raw (by decide)
    | _ => cases typed

end Kept

end Bindery.TypeScript
