import Bindery.Proofs.Attempts
import Bindery.Proofs.Schema.NormalForm
import Bindery.Proofs.TypeScript.Branches

/-!
# The type of a node follows from those inside it

To find its type a node asks for the types of certain nodes inside it. They are less deep, so the
bound on the depth is never met: the type of a node is that of `nodeType` where the nodes inside it
have their own types.
-/

namespace Bindery.TypeScript
set_option autoImplicit false

open Json (Pointer)
open Schema (Role roleOf)

/-- The nodes, with their places, whose types an object schema asks for. Of the properties that
branches declare only those with new names are asked for. -/
inductive Asks (place : Pointer) (fields : List (String × Json)) : Pointer → Json → Prop
  | alternative {keyword : String} {branches : List Json} {position : Nat} {branch : Json}
      (among : keyword ∈ ["oneOf", "anyOf"])
      (found : fields.lookup keyword = some (.array branches))
      (here : branches[position]? = some branch) :
      Asks place fields ((place.child keyword).item position) branch
  | property {entries : List (String × Json)} {entry : String × Json}
      (found : fields.lookup "properties" = some (.object entries)) (mem : entry ∈ entries) :
      Asks place fields ((place.child "properties").child entry.1) entry.2
  | declared {d : Declared} (mem : d ∈ declaredInBranches place fields) :
      Asks place fields d.place d.schema
  | extra {extra : List (String × Json)}
      (found : fields.lookup "additionalProperties" = some (.object extra)) :
      Asks place fields (place.child "additionalProperties") (.object extra)
  | items {schema : Json} (found : fields.lookup "items" = some schema)
      (single : ∀ items, schema ≠ .array items) : Asks place fields (place.child "items") schema
  | tuple {items : List Json} {position : Nat} {item : Json}
      (found : fields.lookup "items" = some (.array items))
      (here : items[position]? = some item) :
      Asks place fields ((place.child "items").item position) item

theorem Asks.depth_lt {place spot : Pointer} {fields : List (String × Json)} {node : Json}
    (h : Asks place fields spot node) : node.depth < (Json.object fields).depth := by
  cases h with
  | alternative _ found here | tuple found here =>
    exact Nat.lt_trans (Json.depth_item_lt (List.mem_of_getElem? here)) (Json.depth_lookup_lt found)
  | property found mem =>
    exact Nat.lt_trans (Json.depth_field_lt mem) (Json.depth_lookup_lt found)
  | declared mem =>
    obtain ⟨_, _, here, mem⟩ := mem_declaredInBranches.1 mem
    exact Nat.lt_trans (depth_declaredIn_lt mem) here.depth_lt
  | extra found | items found _ => exact Json.depth_lookup_lt found

/-! ## Lists of types -/

theorem typesOfItems_eq (typing : Typing) (place : Pointer) (position : Nat) (items : List Json) :
    typesOfItems typing place position items =
      (items.zipIdx position).mapM fun item => typing (place.item item.2) item.1 := by
  induction items generalizing position with
  | nil => rfl
  | cons item rest ih => rw [typesOfItems, ih, List.zipIdx_cons, List.mapM_cons]

/-- The field of a property with a given type. -/
def ownField (required : List String) (entry : String × Json) (type : TypeExpr) : Field :=
  (⟨entry.1, !(required.contains entry.1), description entry.2⟩, type)

theorem ownFields_eq (typing : Typing) (place : Pointer) (required : List String)
    (entries : List (String × Json)) :
    ownFields typing place required entries =
      entries.mapM fun entry =>
        ownField required entry <$> typing (place.child entry.1) entry.2 := by
  induction entries with
  | nil => rfl
  | cons entry rest ih =>
    rw [ownFields, ih, List.mapM_cons, map_eq_pure_bind, bind_assoc]
    simp only [pure_bind]
    rfl

/-! ## Fields -/

/-- The steps to the fields of an object type. -/
theorem merged_of_objectType {typing : Typing} {place : Pointer} {fields : List (String × Json)}
    {all : List Field}
    (typed : objectType typing place fields = .ok (.object all)) :
    ∃ required own, requiredNames place fields = .ok required ∧
      propertyFields typing place required fields = .ok own ∧
      mergeDeclared typing own (declaredInBranches place fields) = .ok all := by
  unfold objectType at typed
  obtain ⟨required, listed, typed⟩ := bind_eq_ok.1 typed
  obtain ⟨own, properties, typed⟩ := bind_eq_ok.1 typed
  obtain ⟨merged, branches, typed⟩ := bind_eq_ok.1 typed
  have same : merged = all := by
    split at typed
    · next empty =>
      rw [List.isEmpty_iff] at empty
      unfold fieldlessType at typed
      split at typed
      · cases typed
        exact empty
      · obtain ⟨type, -, other⟩ := map_eq_ok.1 typed
        cases other
      · split at typed
        · cases typed
          exact empty
        · cases typed
    · cases typed
      rfl
  exact ⟨required, own, listed, properties, same ▸ branches⟩

/-! ## The types inside decide -/

section Congruence

variable {typing typing' : Typing} {place : Pointer} {fields : List (String × Json)}

theorem typesOfItems_congr {items : List Json}
    (same : ∀ position item, items[position]? = some item →
      typing (place.item position) item = typing' (place.item position) item) :
    typesOfItems typing place 0 items = typesOfItems typing' place 0 items := by
  rw [typesOfItems_eq, typesOfItems_eq]
  apply mapM_congr
  intro item mem
  exact same item.2 item.1 (List.mem_zipIdx_iff_getElem?.1 mem)

theorem mergeDeclared_congr {ds : List Declared} {known : List Field}
    (same : ∀ d ∈ ds, typing d.place d.schema = typing' d.place d.schema) :
    mergeDeclared typing known ds = mergeDeclared typing' known ds := by
  induction ds generalizing known with
  | nil => rfl
  | cons d rest ih =>
    obtain ⟨first, same⟩ := List.forall_mem_cons.1 same
    unfold mergeDeclared
    split
    · exact ih same
    · rw [first]
      exact bind_congr fun type => ih same

variable (same : ∀ spot node, Asks place fields spot node → typing spot node = typing' spot node)
include same

theorem alternatives_congr {keyword : String} {branches : Json}
    (among : keyword ∈ ["oneOf", "anyOf"]) (found : fields.lookup keyword = some branches) :
    alternatives typing place keyword branches = alternatives typing' place keyword branches := by
  cases branches with
  | array branches =>
    rw [alternatives, alternatives, typesOfItems_congr]
    exact fun position branch here => same _ branch (.alternative among found here)
  | _ => rfl

theorem propertyFields_congr (required : List String) :
    propertyFields typing place required fields = propertyFields typing' place required fields := by
  unfold propertyFields
  split
  · next entries found =>
    rw [ownFields_eq, ownFields_eq]
    apply mapM_congr
    intro entry mem
    rw [same _ entry.2 (.property found mem)]
  · rfl
  · rfl

theorem fieldlessType_congr :
    fieldlessType typing place fields = fieldlessType typing' place fields := by
  unfold fieldlessType
  split
  · rfl
  · next extra found => rw [same _ _ (.extra found)]
  · rfl

theorem objectType_congr : objectType typing place fields = objectType typing' place fields := by
  unfold objectType
  refine bind_congr fun required => ?_
  rw [propertyFields_congr same]
  refine bind_congr fun own => ?_
  rw [mergeDeclared_congr fun d mem => same _ _ (.declared mem), fieldlessType_congr same]

theorem arrayType_congr : arrayType typing place fields = arrayType typing' place fields := by
  unfold arrayType
  split
  · rfl
  · next items found =>
    rw [typesOfItems_congr]
    exact fun position item here => same _ item (.tuple found here)
  · next schema single found => rw [same _ schema (.items found single)]

theorem tagType_congr (tag : String) :
    tagType typing place fields tag = tagType typing' place fields tag := by
  unfold tagType
  rw [objectType_congr same, arrayType_congr same]

theorem tagTypes_congr (tags : List Json) :
    tagTypes typing place fields tags = tagTypes typing' place fields tags := by
  induction tags with
  | nil => rfl
  | cons tag rest ih =>
    cases tag with
    | string tag => rw [tagTypes, tagTypes, tagType_congr same, ih]
    | _ => rfl

theorem taggedType_congr : taggedType typing place fields = taggedType typing' place fields := by
  unfold taggedType
  simp only [tagType_congr same, tagTypes_congr same, objectType_congr same, arrayType_congr same]

theorem fieldsType_congr : fieldsType typing place fields = fieldsType typing' place fields := by
  unfold fieldsType
  split
  · rfl
  · rfl
  · rfl
  · next found => exact alternatives_congr same (by simp) found
  · next found => exact alternatives_congr same (by simp) found
  · exact taggedType_congr same

end Congruence

/-! ## No bound on the depth -/

theorem typeToDepth_eq {depth depth' : Nat} (place : Pointer) {node : Json}
    (less : node.depth < depth) (less' : node.depth < depth') :
    typeToDepth depth place node = typeToDepth depth' place node := by
  induction node using Json.inductDepth generalizing place depth depth' with
  | step node ih =>
    cases depth with
    | zero => omega
    | succ depth =>
      cases depth' with
      | zero => omega
      | succ depth' =>
        cases node with
        | object fields =>
          apply fieldsType_congr
          intro spot inside asks
          have deeper := asks.depth_lt
          exact ih inside deeper spot (by omega) (by omega)
        | bool value => cases value <;> rfl
        | _ => rfl

/-- **The type of a node is that of its rule**, with their own types for the nodes inside it. -/
theorem typeOfNode_object (place : Pointer) (fields : List (String × Json)) :
    typeOfNode place (.object fields) = fieldsType typeOfNode place fields := by
  apply fieldsType_congr
  intro spot inside asks
  exact typeToDepth_eq spot asks.depth_lt (Nat.lt_succ_self inside.depth)

/-! ## What the nodes inside inherit -/

/-- A property of values at places that their items and fields have as well. -/
structure Inherited (P : Pointer → Json → Prop) : Prop where
  item : ∀ {place : Pointer} {items : List Json} {position : Nat} {item : Json},
    P place (.array items) → items[position]? = some item → P (place.item position) item
  field : ∀ {place : Pointer} {fields : List (String × Json)} {field : String × Json},
    P place (.object fields) → field ∈ fields → P (place.child field.1) field.2

/-- A property of values in their roles, at places, that their items, fields and entries have as
well. -/
structure InheritedAs (P : Role → Pointer → Json → Prop) : Prop where
  item : ∀ {role : Role} {place : Pointer} {items : List Json} {position : Nat} {item : Json},
    P role place (.array items) → items[position]? = some item → P .node (place.item position) item
  field : ∀ {place : Pointer} {fields : List (String × Json)} {field : String × Json},
    P .node place (.object fields) → field ∈ fields →
      P (roleOf field.1) (place.child field.1) field.2
  entry : ∀ {place : Pointer} {entries : List (String × Json)} {entry : String × Json},
    P .map place (.object entries) → entry ∈ entries → P .node (place.child entry.1) entry.2

namespace InheritedAs

variable {P : Role → Pointer → Json → Prop} {place spot : Pointer} {fields : List (String × Json)}

theorem lookup (h : InheritedAs P) (here : P .node place (.object fields)) {key : String}
    {role : Role} (isRole : roleOf key = role) {value : Json}
    (found : fields.lookup key = some value) : P role (place.child key) value := by
  rw [← isRole]
  exact h.field here (mem_of_lookup found)

theorem property (h : InheritedAs P) (here : P .node place (.object fields))
    {entries : List (String × Json)} (found : fields.lookup "properties" = some (.object entries))
    {entry : String × Json} (mem : entry ∈ entries) :
    P .node ((place.child "properties").child entry.1) entry.2 :=
  h.entry (h.lookup here (by decide) found) mem

theorem branch (h : InheritedAs P) (here : P .node place (.object fields)) {branch : Json}
    (among : Branch place fields spot branch) : P .node spot branch := by
  cases among with
  | @key key _ among found =>
    have node : ∀ key ∈ ["then", "else"], roleOf key = .node := by decide
    exact h.lookup here (node key among) found
  | item found there =>
    have node : roleOf "allOf" = .node := by decide
    exact h.item (h.lookup here node found) there

/-- A property that a branch declares, at the place where it is declared. -/
theorem declared (h : InheritedAs P) {branch : Json} (here : P .node place branch) {d : Declared}
    (mem : d ∈ declaredIn place branch) : P .node d.place d.schema := by
  induction branch using Json.inductDepth generalizing place with
  | step branch ih =>
    cases branch with
    | object fields =>
      rcases mem_declaredIn_object.1 mem with own | inner
      · obtain ⟨entries, found, entry, there, rfl⟩ := mem_declaredProperties.1 own
        exact h.property here found there
      · obtain ⟨spot, inside, among, mem⟩ := mem_declaredInBranches.1 inner
        exact ih inside among.depth_lt (h.branch here among) mem
    | _ => simp [declaredIn] at mem

/-- A node that is asked for, at the place where it is asked for. -/
theorem asked (h : InheritedAs P) (here : P .node place (.object fields)) {node : Json}
    (asks : Asks place fields spot node) : P .node spot node := by
  cases asks with
  | @alternative keyword _ _ _ among found there =>
    have node : ∀ key ∈ ["oneOf", "anyOf"], roleOf key = .node := by decide
    exact h.item (h.lookup here (node keyword among) found) there
  | property found mem => exact h.property here found mem
  | declared mem =>
    obtain ⟨_, _, among, mem⟩ := mem_declaredInBranches.1 mem
    exact h.declared (h.branch here among) mem
  | extra found | items found _ => exact h.lookup here (by decide) found
  | tuple found there =>
    have node : roleOf "items" = .node := by decide
    exact h.item (h.lookup here node found) there

end InheritedAs

/-- What all parts inherit, they inherit in any role. -/
theorem Inherited.inRoles {P : Pointer → Json → Prop} (h : Inherited P) :
    InheritedAs fun _ => P where
  item := h.item
  field := h.field
  entry := h.field

end Bindery.TypeScript
