import Bindery.Proofs.Json.Depth
import Bindery.TypeScript.OfSchema

/-!
# Properties that branches declare

The branches of a node are under its keys `then` and `else` and in its `allOf`. Each declares its own
properties and, being a node, those of its own branches.
-/

namespace Bindery.TypeScript
set_option autoImplicit false

open Json (Pointer)

/-- A branch of a node and its place. -/
inductive Branch (place : Pointer) (fields : List (String × Json)) : Pointer → Json → Prop
  | key {key : String} {branch : Json} (among : key ∈ ["then", "else"])
      (found : fields.lookup key = some branch) : Branch place fields (place.child key) branch
  | item {items : List Json} {position : Nat} {branch : Json}
      (found : fields.lookup "allOf" = some (.array items))
      (here : items[position]? = some branch) :
      Branch place fields ((place.child "allOf").item position) branch

theorem Branch.depth_lt {place spot : Pointer} {fields : List (String × Json)} {branch : Json}
    (h : Branch place fields spot branch) : branch.depth < (Json.object fields).depth := by
  cases h with
  | key _ found => exact Json.depth_lookup_lt found
  | item found here =>
    exact Nat.lt_trans (Json.depth_item_lt (List.mem_of_getElem? here)) (Json.depth_lookup_lt found)

/-! ## Declarations as lists -/

theorem declaredUnder_eq (key : String) (place : Pointer) (fields : List (String × Json)) :
    declaredUnder key place fields =
      ((fields.lookup key).map (declaredIn (place.child key))).getD [] := by
  induction fields with
  | nil => rfl
  | cons field rest ih =>
    obtain ⟨k, branch⟩ := field
    rw [declaredUnder, List.lookup_cons]
    by_cases same : k = key
    · simp [same]
    · rw [if_neg same, ih, beq_eq_false_iff_ne.2 (Ne.symm same)]

theorem declaredUnderAllOf_eq (place : Pointer) (fields : List (String × Json)) :
    declaredUnderAllOf place fields =
      ((fields.lookup "allOf").map (declaredInArray (place.child "allOf"))).getD [] := by
  induction fields with
  | nil => rfl
  | cons field rest ih =>
    obtain ⟨k, branches⟩ := field
    rw [declaredUnderAllOf, List.lookup_cons]
    by_cases same : k = "allOf"
    · simp [same]
    · rw [if_neg same, ih, beq_eq_false_iff_ne.2 (Ne.symm same)]

theorem declaredInItems_eq (place : Pointer) (position : Nat) (items : List Json) :
    declaredInItems place position items =
      (items.zipIdx position).flatMap fun item => declaredIn (place.item item.2) item.1 := by
  induction items generalizing position with
  | nil => rfl
  | cons item rest ih => rw [declaredInItems, ih, List.zipIdx_cons, List.flatMap_cons]

section Membership

variable {place : Pointer} {fields : List (String × Json)} {d : Declared}

theorem mem_declaredUnder {key : String} :
    d ∈ declaredUnder key place fields ↔
      ∃ branch, fields.lookup key = some branch ∧ d ∈ declaredIn (place.child key) branch := by
  rw [declaredUnder_eq]
  cases fields.lookup key <;> simp

theorem mem_declaredUnderAllOf :
    d ∈ declaredUnderAllOf place fields ↔
      ∃ items position branch, fields.lookup "allOf" = some (.array items) ∧
        items[position]? = some branch ∧
        d ∈ declaredIn ((place.child "allOf").item position) branch := by
  rw [declaredUnderAllOf_eq]
  cases fields.lookup "allOf" with
  | none => simp
  | some branches =>
    cases branches with
    | array items =>
      simp only [Option.map_some, Option.getD_some, declaredInArray, declaredInItems_eq,
        List.mem_flatMap, Prod.exists, List.mem_zipIdx_iff_getElem?]
      constructor
      · rintro ⟨branch, position, here, mem⟩
        exact ⟨items, position, branch, rfl, here, mem⟩
      · rintro ⟨_, position, branch, same, here, mem⟩
        cases same
        exact ⟨branch, position, here, mem⟩
    | _ => simp [declaredInArray]

/-- What the branches of a node declare is what one of them declares. -/
theorem mem_declaredInBranches :
    d ∈ declaredInBranches place fields ↔
      ∃ spot branch, Branch place fields spot branch ∧ d ∈ declaredIn spot branch := by
  simp only [declaredInBranches, List.mem_append, mem_declaredUnder, mem_declaredUnderAllOf]
  constructor
  · rintro ((⟨branch, found, mem⟩ | ⟨branch, found, mem⟩) |
      ⟨items, position, branch, found, here, mem⟩)
    · exact ⟨_, branch, .key (by simp) found, mem⟩
    · exact ⟨_, branch, .key (by simp) found, mem⟩
    · exact ⟨_, branch, .item found here, mem⟩
  · rintro ⟨_, branch, here, mem⟩
    cases here with
    | @key key _ among found =>
      simp only [List.mem_cons, List.not_mem_nil, or_false] at among
      rcases among with rfl | rfl
      · exact Or.inl (Or.inl ⟨branch, found, mem⟩)
      · exact Or.inl (Or.inr ⟨branch, found, mem⟩)
    | item found here => exact Or.inr ⟨_, _, branch, found, here, mem⟩

theorem mem_declaredIn_object :
    d ∈ declaredIn place (.object fields) ↔
      d ∈ declaredProperties place fields ∨ d ∈ declaredInBranches place fields := by
  rw [declaredIn, declaredInBranches, List.append_assoc, List.append_assoc, List.mem_append,
    List.append_assoc]

theorem mem_declaredProperties :
    d ∈ declaredProperties place fields ↔
      ∃ entries, fields.lookup "properties" = some (.object entries) ∧
        ∃ entry ∈ entries, d = ⟨(place.child "properties").child entry.1, entry.1, entry.2⟩ := by
  unfold declaredProperties
  split
  · next entries found => simp [found, declaredEntries, eq_comm]
  · next other =>
    simp only [List.not_mem_nil, false_iff]
    rintro ⟨entries, found, -⟩
    exact other entries found

end Membership

theorem depth_declaredIn_lt {branch : Json} {place : Pointer} {d : Declared}
    (mem : d ∈ declaredIn place branch) : d.schema.depth < branch.depth := by
  induction branch using Json.inductDepth generalizing place with
  | step branch ih =>
    cases branch with
    | object fields =>
      rcases mem_declaredIn_object.1 mem with own | inner
      · obtain ⟨entries, found, entry, here, rfl⟩ := mem_declaredProperties.1 own
        exact Nat.lt_trans (Json.depth_field_lt here) (Json.depth_lookup_lt found)
      · obtain ⟨_, inside, here, mem⟩ := mem_declaredInBranches.1 inner
        exact Nat.lt_trans (ih inside here.depth_lt mem) here.depth_lt
    | _ => simp [declaredIn] at mem

end Bindery.TypeScript
