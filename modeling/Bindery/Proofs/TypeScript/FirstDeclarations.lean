import Bindery.Proofs.Json.Keys
import Bindery.Proofs.TypeScript.Typing

/-!
# The first declaration of a name makes the field

The properties of an object node are those it declares itself and those met on a walk of its
branches, depth first. Of the declarations of one name the first makes a field, and the others are
not looked at: what types they have, whether they have any, and what they say does not matter.
-/

namespace Bindery.TypeScript
set_option autoImplicit false

open Json (Pointer DistinctKeys)

/-! ## The walk -/

/-- The properties that a node declares itself. -/
def propertiesOf (place : Pointer) (fields : List (String × Json)) : List Declared :=
  match fields.lookup "properties" with
  | some (.object entries) =>
    entries.map fun entry => ⟨place ++ ["properties", entry.1], entry.1, entry.2⟩
  | _ => []

/-- The branch at a key of a node, if there is one. -/
def branchAt (key : String) (place : Pointer) (fields : List (String × Json)) :
    List (Pointer × Json) :=
  ((fields.lookup key).map fun branch => (place ++ [key], branch)).toList

/-- The items of a node's `allOf`. -/
def branchesInAllOf (place : Pointer) (fields : List (String × Json)) : List (Pointer × Json) :=
  match fields.lookup "allOf" with
  | some (.array items) => items.zipIdx.map fun item => (place ++ ["allOf", toString item.2], item.1)
  | _ => []

/-- The branches of a node in the order of the walk. -/
def branchesOf (place : Pointer) (fields : List (String × Json)) : List (Pointer × Json) :=
  branchAt "then" place fields ++ branchAt "else" place fields ++ branchesInAllOf place fields

theorem branch_of_mem {place : Pointer} {fields : List (String × Json)} {branch : Pointer × Json}
    (mem : branch ∈ branchesOf place fields) : Branch place fields branch.1 branch.2 := by
  have keyed {key : String} (among : key ∈ ["then", "else"])
      (mem : branch ∈ branchAt key place fields) : Branch place fields branch.1 branch.2 := by
    obtain ⟨value, found, rfl⟩ := Option.map_eq_some_iff.1 (Option.mem_toList.1 mem)
    exact .key among found
  rcases List.mem_append.1 mem with mem | listed
  · exact (List.mem_append.1 mem).elim (keyed (by simp)) (keyed (by simp))
  · unfold branchesInAllOf at listed
    split at listed
    · next items found =>
      obtain ⟨item, there, rfl⟩ := List.mem_map.1 listed
      have here : Branch place fields ((place.child "allOf").item item.2) item.1 :=
        .item found (List.mem_zipIdx_iff_getElem?.1 there)
      simpa [Pointer.child, Pointer.item] using here
    · cases listed

/-- The declarations met on the walk of a node: its own, then those of each of its branches. What is
no object declares nothing. -/
def walk (place : Pointer) (node : Json) : List Declared :=
  match node with
  | .object fields =>
    propertiesOf place fields ++
      (branchesOf place fields).attach.flatMap fun branch => walk branch.1.1 branch.1.2
  | _ => []
termination_by node.depth
decreasing_by exact (branch_of_mem branch.2).depth_lt

theorem walk_object (place : Pointer) (fields : List (String × Json)) :
    walk place (.object fields) =
      propertiesOf place fields ++
        (branchesOf place fields).flatMap fun branch => walk branch.1 branch.2 := by
  rw [walk, List.flatMap_subtype (g := fun branch => walk branch.1 branch.2) (fun _ _ => rfl),
    List.unattach_attach]

/-! ## The walk of the types -/

theorem propertiesOf_eq (place : Pointer) (fields : List (String × Json)) :
    propertiesOf place fields = declaredProperties place fields := by
  unfold propertiesOf declaredProperties
  cases fields.lookup "properties" with
  | none => rfl
  | some value => cases value <;> simp [declaredEntries, Pointer.child]

theorem declaredIn_object (place : Pointer) (fields : List (String × Json)) :
    declaredIn place (.object fields) =
      declaredProperties place fields ++ declaredInBranches place fields := by
  rw [declaredIn, declaredInBranches]
  simp only [List.append_assoc]

theorem declaredInBranches_eq (place : Pointer) (fields : List (String × Json)) :
    declaredInBranches place fields =
      (branchesOf place fields).flatMap fun branch => declaredIn branch.1 branch.2 := by
  have keyed (key : String) : declaredUnder key place fields =
      (branchAt key place fields).flatMap fun branch => declaredIn branch.1 branch.2 := by
    rw [declaredUnder_eq, branchAt]
    cases fields.lookup key <;> simp [Pointer.child]
  have listed : declaredUnderAllOf place fields =
      (branchesInAllOf place fields).flatMap fun branch => declaredIn branch.1 branch.2 := by
    rw [declaredUnderAllOf_eq, branchesInAllOf]
    cases fields.lookup "allOf" with
    | none => rfl
    | some branches =>
      cases branches <;>
        simp [declaredInArray, declaredInItems_eq, List.flatMap_map, Pointer.child, Pointer.item]
  rw [declaredInBranches, keyed, keyed, listed, branchesOf, List.flatMap_append,
    List.flatMap_append]

/-- The walk that is taken to find a type is this walk. -/
theorem walk_eq (place : Pointer) (node : Json) : walk place node = declaredIn place node := by
  induction node using Json.inductDepth generalizing place with
  | step node ih =>
    cases node with
    | object fields =>
      rw [walk_object, declaredIn_object, declaredInBranches_eq, propertiesOf_eq]
      congr 1
      exact List.flatMap_congr fun branch mem => ih _ (branch_of_mem mem).depth_lt _
    | _ => rw [walk, declaredIn] <;> simp

/-! ## First declarations -/

/-- The declarations that are the first of their names, the names in `taken` left out. -/
def newDeclared (taken : List String) : List Declared → List Declared
  | [] => []
  | d :: rest =>
    if taken.contains d.name then newDeclared taken rest
    else d :: newDeclared (taken ++ [d.name]) rest

/-- The declarations of a list that are the first of their names. -/
def firstDeclared (ds : List Declared) : List Declared :=
  ds.eraseDupsBy (·.name == ·.name)

theorem loop_eraseDupsBy (ds seen : List Declared) :
    List.eraseDupsBy.loop (·.name == ·.name) ds seen =
      seen.reverse ++ newDeclared (seen.reverse.map (·.name)) ds := by
  induction ds generalizing seen with
  | nil => simp [List.eraseDupsBy.loop, newDeclared]
  | cons d rest ih =>
    have same : seen.any (d.name == ·.name) = (seen.reverse.map (·.name)).contains d.name := by
      rw [Bool.eq_iff_iff]
      simp [eq_comm (a := d.name)]
    rw [List.eraseDupsBy.loop, newDeclared, same]
    cases (seen.reverse.map (·.name)).contains d.name with
    | true => exact ih seen
    | false => simpa using ih (d :: seen)

theorem firstDeclared_eq (ds : List Declared) : firstDeclared ds = newDeclared [] ds :=
  loop_eraseDupsBy ds []

theorem not_mem_taken {taken : List String} {ds : List Declared} {d : Declared}
    (mem : d ∈ newDeclared taken ds) : d ∈ ds ∧ d.name ∉ taken := by
  induction ds generalizing taken with
  | nil => cases mem
  | cons first rest ih =>
    unfold newDeclared at mem
    split at mem
    · exact (ih mem).imp_left (List.mem_cons_of_mem first)
    · next fresh =>
      rcases List.mem_cons.1 mem with rfl | mem
      · exact ⟨List.mem_cons_self, by simpa using fresh⟩
      · obtain ⟨there, other⟩ := ih mem
        exact ⟨List.mem_cons_of_mem first there, fun old => other (List.mem_append_left _ old)⟩

theorem nodup_newDeclared (taken : List String) (ds : List Declared) :
    ((newDeclared taken ds).map (·.name)).Nodup := by
  induction ds generalizing taken with
  | nil => exact List.nodup_nil
  | cons d rest ih =>
    unfold newDeclared
    split
    · exact ih taken
    · rw [List.map_cons, List.nodup_cons]
      refine ⟨fun again => ?_, ih _⟩
      obtain ⟨other, mem, same⟩ := List.mem_map.1 again
      exact (not_mem_taken mem).2 (by simp [same])

/-- Declarations of distinct names are the first of their names. -/
theorem newDeclared_append {taken : List String} {ds rest : List Declared}
    (distinct : (ds.map (·.name)).Nodup) (fresh : ∀ d ∈ ds, d.name ∉ taken) :
    newDeclared taken (ds ++ rest) = ds ++ newDeclared (taken ++ ds.map (·.name)) rest := by
  induction ds generalizing taken with
  | nil => simp
  | cons d ds ih =>
    rw [List.map_cons, List.nodup_cons] at distinct
    obtain ⟨here, fresh⟩ := List.forall_mem_cons.1 fresh
    have others : ∀ other ∈ ds, other.name ∉ taken ++ [d.name] := by
      intro other mem taken'
      rcases List.mem_append.1 taken' with old | same
      · exact fresh other mem old
      · exact distinct.1 (List.mem_map.2 ⟨other, mem, List.mem_singleton.1 same⟩)
    rw [List.cons_append, newDeclared, if_neg (by simpa using here), ih distinct.2 others,
      List.map_cons, List.append_assoc]
    rfl

/-! ## Fields of declarations -/

/-- The field that a branch's declaration makes. -/
def branchField (d : Declared) (type : TypeExpr) : Field :=
  (⟨d.name, true, description d.schema⟩, type)

theorem hasField_eq (fields : List Field) (name : String) :
    hasField fields name = (fields.map (·.1.name)).contains name := by
  rw [Bool.eq_iff_iff]
  simp [hasField]

theorem map_eq_map_of_forall₂ {α β γ : Type} {R : α → β → Prop} {f : α → γ} {g : β → γ}
    {xs : List α} {ys : List β} (pairs : List.Forall₂ R xs ys) (each : ∀ x y, R x y → f x = g y) :
    xs.map f = ys.map g := by
  induction pairs with
  | nil => rfl
  | cons first _ ih => rw [List.map_cons, List.map_cons, each _ _ first, ih]

/-- Merging adds the fields of the declarations whose names are new. -/
theorem mergeDeclared_eq (typing : Typing) (known : List Field) (ds : List Declared) :
    mergeDeclared typing known ds =
      (known ++ ·) <$> (newDeclared (known.map (·.1.name)) ds).mapM fun d =>
        branchField d <$> typing d.place d.schema := by
  induction ds generalizing known with
  | nil => simp [mergeDeclared, newDeclared, pure, Except.pure, Functor.map, Except.map]
  | cons d rest ih =>
    rw [mergeDeclared, newDeclared, hasField_eq]
    cases (known.map (·.1.name)).contains d.name with
    | true => exact ih known
    | false =>
      rw [if_neg Bool.false_ne_true, if_neg Bool.false_ne_true]
      cases typed : typing d.place d.schema with
      | error misfit =>
        rw [List.mapM_cons, typed]
        rfl
      | ok type =>
        have field : branchField d <$> typing d.place d.schema = .ok (branchField d type) := by
          rw [typed]
          rfl
        have later := ih (known ++ [branchField d type])
        rw [List.map_append] at later
        rw [mapM_cons_of_ok (f := fun d => branchField d <$> typing d.place d.schema) field,
          Functor.map_map]
        refine later.trans ?_
        simp only [List.append_assoc, List.singleton_append]
        rfl

/-- A node declares a property of this name itself. -/
def Own (fields : List (String × Json)) (name : String) : Prop :=
  ∃ entries, fields.lookup "properties" = some (.object entries) ∧ name ∈ entries.map (·.1)

/-- A node requires this name. -/
def Requires (fields : List (String × Json)) (name : String) : Prop :=
  ∃ names, fields.lookup "required" = some (.array names) ∧ .string name ∈ names

/-- The field that a declaration makes in the type of a node. -/
structure Makes (fields : List (String × Json)) (d : Declared) (field : Field) : Prop where
  name : field.1.name = d.name
  doc : field.1.doc = description d.schema
  type : typeOfNode d.place d.schema = .ok field.2
  own : Own fields d.name → (field.1.optional = true ↔ ¬Requires fields d.name)
  other : ¬Own fields d.name → field.1.optional = true

section Object

variable {place : Pointer} {fields : List (String × Json)}

theorem mem_required {required : List String} (listed : requiredNames place fields = .ok required)
    {name : String} : name ∈ required ↔ Requires fields name := by
  unfold requiredNames at listed
  split at listed
  · next found =>
    cases listed
    simp [Requires, found]
  · next items found =>
    have same : items = required.map .string := by
      have pairs := (mapM_eq_ok.1 listed).imp (R := _) (S := fun item name => item = .string name)
        fun item name done => by
          cases item <;> simp_all
      exact List.forall₂_eq_eq_eq ▸ List.forall₂_map_right_iff.2 pairs
    simp [Requires, found, same]
  · cases listed

theorem own_iff {name : String} :
    Own fields name ↔ name ∈ (propertiesOf place fields).map (·.name) := by
  unfold propertiesOf Own
  cases fields.lookup "properties" with
  | none => simp
  | some value => cases value <;> simp

theorem nodup_propertiesOf (keys : DistinctKeys (.object fields)) :
    ((propertiesOf place fields).map (·.name)).Nodup := by
  unfold propertiesOf
  split
  · next entries found =>
    have inner := (Json.distinctKeys_object.1 keys).2 _ (mem_of_lookup found)
    simpa [Function.comp_def] using (Json.distinctKeys_object.1 inner).1
  · simp

/-- The first declarations of a node are its own and those of its branches with other names. -/
theorem firstDeclared_walk (keys : DistinctKeys (.object fields)) :
    firstDeclared (walk place (.object fields)) =
      propertiesOf place fields ++
        newDeclared ((propertiesOf place fields).map (·.name)) (declaredInBranches place fields) := by
  rw [firstDeclared_eq, walk_eq, declaredIn_object, ← propertiesOf_eq]
  exact newDeclared_append (nodup_propertiesOf keys) (by simp)

/-- The fields of a node's own properties are those of its own declarations. -/
theorem propertyFields_eq_ok {typing : Typing} {required : List String} {own : List Field}
    (typed : propertyFields typing place required fields = .ok own) :
    List.Forall₂ (fun d field =>
      ∃ type, typing d.place d.schema = .ok type ∧ ownField required (d.name, d.schema) type = field)
      (propertiesOf place fields) own := by
  unfold propertyFields at typed
  unfold propertiesOf
  split at typed
  · next entries found =>
    rw [ownFields_eq] at typed
    rw [found, List.forall₂_map_left_iff]
    refine (mapM_eq_ok.1 typed).imp fun entry field done => ?_
    obtain ⟨type, typed, same⟩ := map_eq_ok.1 done
    exact ⟨type, by simpa [Pointer.child] using typed, same⟩
  · cases typed
  · next found =>
    cases typed
    rw [found]
    exact .nil

/-- The names of the fields of a node's own properties. -/
theorem names_propertyFields {typing : Typing} {required : List String} {own : List Field}
    (typed : propertyFields typing place required fields = .ok own) :
    own.map (·.1.name) = (propertiesOf place fields).map (·.name) := by
  refine (map_eq_map_of_forall₂ (propertyFields_eq_ok typed) ?_).symm
  rintro d field ⟨type, -, rfl⟩
  rfl

/-- The fields of an object type are those that the first declarations make. -/
theorem makes_of_objectType (keys : DistinctKeys (.object fields)) {all : List Field}
    (typed : objectType typeOfNode place fields = .ok (.object all)) :
    List.Forall₂ (Makes fields) (firstDeclared (walk place (.object fields))) all := by
  obtain ⟨required, own, listed, properties, merged⟩ := merged_of_objectType typed
  rw [mergeDeclared_eq, names_propertyFields properties] at merged
  obtain ⟨new, branches, rfl⟩ := map_eq_ok.1 merged
  rw [firstDeclared_walk keys]
  refine List.rel_append ?_ ?_
  · have made := (List.forall₂_and_left _ _).2 ⟨fun d mem => mem, propertyFields_eq_ok properties⟩
    refine made.imp ?_
    rintro d field ⟨mem, type, typed, rfl⟩
    have own : Own fields d.name := own_iff.2 (List.mem_map_of_mem mem)
    refine ⟨rfl, rfl, typed, fun _ => ?_, fun other => absurd own other⟩
    simp [ownField, ← mem_required listed]
  · have made := (List.forall₂_and_left _ _).2 ⟨fun d mem => not_mem_taken mem, mapM_eq_ok.1 branches⟩
    refine made.imp ?_
    rintro d field ⟨⟨-, fresh⟩, done⟩
    obtain ⟨type, typed, rfl⟩ := map_eq_ok.1 done
    exact ⟨rfl, rfl, typed, fun own => absurd (own_iff.1 own) fresh, fun _ => rfl⟩

section Unchanged

variable {typing typing' : Typing} {others : List (String × Json)}

theorem propertiesOf_eq_of_keyword
    (keyword : others.lookup "properties" = fields.lookup "properties") :
    propertiesOf place others = propertiesOf place fields := by
  unfold propertiesOf
  rw [keyword]

theorem fieldlessType_eq_of_keywords
    (keywords : ∀ key ∈ ["additionalProperties", "properties"],
      others.lookup key = fields.lookup key)
    (extra : ∀ extra, fields.lookup "additionalProperties" = some (.object extra) →
      typing' (place.child "additionalProperties") (.object extra) =
        typing (place.child "additionalProperties") (.object extra)) :
    fieldlessType typing' place others = fieldlessType typing place fields := by
  unfold fieldlessType
  rw [keywords "additionalProperties" (by simp), keywords "properties" (by simp)]
  split
  · rfl
  · next found => rw [extra _ found]
  · rfl

/-- Nodes with the same properties and the same first declarations differ in no new declaration. -/
theorem newDeclared_eq_of_first (keys : DistinctKeys (.object fields))
    (keyword : others.lookup "properties" = fields.lookup "properties")
    (first : firstDeclared (walk place (.object others)) =
      firstDeclared (walk place (.object fields))) :
    newDeclared ((propertiesOf place fields).map (·.name)) (declaredInBranches place others) =
      newDeclared ((propertiesOf place fields).map (·.name))
        (declaredInBranches place fields) := by
  rw [firstDeclared_walk keys, firstDeclared_eq, walk_eq, declaredIn_object, ← propertiesOf_eq,
    propertiesOf_eq_of_keyword keyword, newDeclared_append (nodup_propertiesOf keys) (by simp)]
    at first
  exact List.append_cancel_left first

theorem propertyFields_eq_of_first (keys : DistinctKeys (.object fields))
    (keyword : others.lookup "properties" = fields.lookup "properties")
    (types : ∀ d ∈ firstDeclared (walk place (.object fields)),
      typing' d.place d.schema = typing d.place d.schema) (required : List String) :
    propertyFields typing' place required others = propertyFields typing place required fields := by
  unfold propertyFields
  rw [keyword]
  split
  · next entries found =>
    rw [ownFields_eq, ownFields_eq]
    apply mapM_congr
    intro entry mem
    have listed : ⟨(place.child "properties").child entry.1, entry.1, entry.2⟩ ∈
        firstDeclared (walk place (.object fields)) := by
      rw [firstDeclared_walk keys, propertiesOf_eq]
      exact List.mem_append_left _ (mem_declaredProperties.2 ⟨entries, found, entry, mem, rfl⟩)
    rw [types _ listed]
  · rfl
  · rfl

/-- **What the type of an object node depends on**: three of its keywords, and the types of the first
declarations. -/
theorem objectType_eq_of_first (keys : DistinctKeys (.object fields))
    (keywords : ∀ key ∈ ["required", "properties", "additionalProperties"],
      others.lookup key = fields.lookup key)
    (first : firstDeclared (walk place (.object others)) =
      firstDeclared (walk place (.object fields)))
    (types : ∀ d ∈ firstDeclared (walk place (.object fields)),
      typing' d.place d.schema = typing d.place d.schema)
    (extra : ∀ extra, fields.lookup "additionalProperties" = some (.object extra) →
      typing' (place.child "additionalProperties") (.object extra) =
        typing (place.child "additionalProperties") (.object extra)) :
    objectType typing' place others = objectType typing place fields := by
  have keyword := keywords "properties" (by simp)
  have required : requiredNames place others = requiredNames place fields := by
    unfold requiredNames
    rw [keywords "required" (by simp)]
  have fieldless : fieldlessType typing' place others = fieldlessType typing place fields :=
    fieldlessType_eq_of_keywords (by simp [keywords]) extra
  unfold objectType
  rw [required]
  refine bind_congr fun names => ?_
  rw [propertyFields_eq_of_first keys keyword types]
  cases done : propertyFields typing place names fields with
  | error misfit => rfl
  | ok known =>
    have merged : mergeDeclared typing' known (declaredInBranches place others) =
        mergeDeclared typing known (declaredInBranches place fields) := by
      rw [mergeDeclared_eq, mergeDeclared_eq, names_propertyFields done,
        newDeclared_eq_of_first keys keyword first]
      refine congrArg _ (mapM_congr fun d mem => ?_)
      rw [types d]
      rw [firstDeclared_walk keys]
      exact List.mem_append_right _ mem
    change (mergeDeclared _ _ _ >>= _) = (mergeDeclared _ _ _ >>= _)
    rw [merged, fieldless]

end Unchanged

end Object

/-- **The first declaration of a name makes the field.** If the type of an object node has fields,
their names are distinct, and they are in order what the first declarations met on the walk of the
node make. Other declarations are not looked at: nothing changes, in the type or in the error, if
they get any other types or none, or if the branches are others with the same first declarations. -/
theorem first_declarations_make_fields (place : Pointer) {fields : List (String × Json)}
    (keys : DistinctKeys (.object fields)) :
    let first := firstDeclared (walk place (.object fields))
    (∀ all, objectType typeOfNode place fields = .ok (.object all) →
      (all.map (·.1.name)).Nodup ∧ List.Forall₂ (Makes fields) first all) ∧
    (∀ typing : Typing,
      (∀ d ∈ first, typing d.place d.schema = typeOfNode d.place d.schema) →
      (∀ extra, fields.lookup "additionalProperties" = some (.object extra) →
        typing (place.child "additionalProperties") (.object extra) =
          typeOfNode (place.child "additionalProperties") (.object extra)) →
      objectType typing place fields = objectType typeOfNode place fields) ∧
    ∀ others : List (String × Json),
      (∀ key ∈ ["required", "properties", "additionalProperties"],
        others.lookup key = fields.lookup key) →
      firstDeclared (walk place (.object others)) = first →
      objectType typeOfNode place others = objectType typeOfNode place fields := by
  intro first
  refine ⟨fun all typed => ?_, fun typing types extra => ?_, fun others keywords same => ?_⟩
  · have made := makes_of_objectType keys typed
    have names : first.map (·.name) = all.map (·.1.name) :=
      map_eq_map_of_forall₂ made fun d field makes => makes.name.symm
    refine ⟨?_, made⟩
    rw [← names]
    show ((firstDeclared _).map (·.name)).Nodup
    rw [firstDeclared_eq]
    exact nodup_newDeclared [] _
  · exact objectType_eq_of_first keys (fun _ _ => rfl) rfl types extra
  · exact objectType_eq_of_first keys keywords same (fun _ _ => rfl) fun _ _ => rfl

/-- Three names are declared again: `id` by what is no schema, `fee` with an unknown type, and `tip`
after an item of `allOf` below `then`. Without those declarations the type is the same. -/
theorem first_declarations_make_fields_repeated :
    let own : List (String × Json) :=
      [("properties", .object [("id", .object [("type", .string "string")]), ("note", .bool true)]),
        ("required", .array [.string "id"])]
    let fee : String × Json := ("fee", .object [("type", .string "number")])
    let fields := own ++
      [("then", .object [("properties", .object [("id", .null), fee]),
        ("allOf", .array [.object [("properties", .object
          [("fee", .object [("type", .string "u128")]), ("tip", .bool true)])]])]),
        ("else", .object [("properties", .object [("tip", .string "no schema")])])]
    let others := own ++
      [("then", .object [("properties", .object [fee]),
        ("allOf", .array [.object [("properties", .object [("tip", .bool true)])]])])]
    let all : List Field :=
      [(⟨"id", false, none⟩, .string), (⟨"note", true, none⟩, .unknown),
        (⟨"fee", true, none⟩, .number), (⟨"tip", true, none⟩, .unknown)]
    DistinctKeys (.object fields) ∧
      (firstDeclared (walk [] (.object fields))).map (·.place) =
        [["properties", "id"], ["properties", "note"], ["then", "properties", "fee"],
          ["then", "allOf", "0", "properties", "tip"]] ∧
      objectType typeOfNode [] fields = .ok (.object all) ∧
      List.Forall₂ (Makes fields) (firstDeclared (walk [] (.object fields))) all ∧
      objectType typeOfNode [] others = objectType typeOfNode [] fields := by
  intro own fee fields others all
  have keys : DistinctKeys (.object fields) := by
    simp [fields, own, fee]
  have typed : objectType typeOfNode [] fields = .ok (.object all) := rfl
  have places : (firstDeclared (walk [] (.object fields))).map (·.place) =
      [["properties", "id"], ["properties", "note"], ["then", "properties", "fee"],
        ["then", "allOf", "0", "properties", "tip"]] := by
    rw [walk_eq]
    rfl
  have same : firstDeclared (walk [] (.object others)) = firstDeclared (walk [] (.object fields)) := by
    rw [walk_eq, walk_eq]
    rfl
  obtain ⟨made, -, unchanged⟩ := first_declarations_make_fields [] keys
  have keywords : ∀ key ∈ ["required", "properties", "additionalProperties"],
      others.lookup key = fields.lookup key := by
    simp [fields, others, own, List.lookup_cons]
  exact ⟨keys, places, typed, (made all typed).2, unchanged others keywords same⟩

end Bindery.TypeScript
