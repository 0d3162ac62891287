import Bindery.Proofs.Schema.Validity
import Bindery.Proofs.TypeScript.Inhabitants
import Bindery.Proofs.TypeScript.Typing
import Bindery.Schema.TagTable
import Mathlib.Tactic.NormNum

/-!
# Types only widen schemas

A `Compilable` schema has a type, and every value that is valid against the schema is a value of
that type. Of the keywords that decide a node's type the first present one must have its proper
form, and the nodes it asks for must be compilable too; nothing is asked of the other keywords.
-/

namespace Bindery.TypeScript
set_option autoImplicit false

open Json (Pointer)
open Schema (Dialect HasTag Lists Meets Valid genericTags valid_object)

/-- What the keywords of objects must look like for a node that allows objects. Properties that are
present must be some, unless the node says what else it allows. -/
structure ObjectShape (fields : List (String × Json)) : Prop where
  required : ∀ value, fields.lookup "required" = some value →
    ∃ names : List String, value = .array (names.map .string)
  properties : ∀ value, fields.lookup "properties" = some value →
    ∃ entries, value = .object entries ∧
      (entries ≠ [] ∨ fields.lookup "additionalProperties" = some (.bool false) ∨
        ∃ extra, fields.lookup "additionalProperties" = some (.object extra))
  noOthers : ∀ key ∈ ["patternProperties", "allOf", "then", "else"], fields.lookup key = none

/-- Schemas whose types are sure to have all their values. -/
inductive Compilable : Json → Prop
  | bool (accepts : Bool) : Compilable (.bool accepts)
  | const {fields : List (String × Json)} {literal : Json}
      (found : fields.lookup "const" = some literal) : Compilable (.object fields)
  | enum {fields : List (String × Json)} {literals : List Json}
      (first : fields.lookup "const" = none)
      (found : fields.lookup "enum" = some (.array literals)) : Compilable (.object fields)
  | oneOf {fields : List (String × Json)} {branches : List Json}
      (first : ∀ key ∈ ["const", "enum"], fields.lookup key = none)
      (found : fields.lookup "oneOf" = some (.array branches))
      (each : ∀ branch ∈ branches, Compilable branch) : Compilable (.object fields)
  | anyOf {fields : List (String × Json)} {branches : List Json}
      (first : ∀ key ∈ ["const", "enum", "oneOf"], fields.lookup key = none)
      (found : fields.lookup "anyOf" = some (.array branches))
      (each : ∀ branch ∈ branches, Compilable branch) : Compilable (.object fields)
  | type {fields : List (String × Json)} {value : Json} {tags : List String}
      (first : ∀ key ∈ ["const", "enum", "oneOf", "anyOf"], fields.lookup key = none)
      (found : fields.lookup "type" = some value) (lists : Lists value tags)
      (generic : ∀ tag ∈ tags, tag ∈ genericTags)
      (shape : "object" ∈ tags → ObjectShape fields)
      (properties : "object" ∈ tags → ∀ entries,
        fields.lookup "properties" = some (.object entries) → ∀ entry ∈ entries, Compilable entry.2)
      (additional : "object" ∈ tags → ∀ extra,
        fields.lookup "additionalProperties" = some extra → Compilable extra)
      (items : "array" ∈ tags → ∀ schema, fields.lookup "items" = some schema → Compilable schema) :
      Compilable (.object fields)
  | anything {fields : List (String × Json)}
      (none : ∀ key ∈ ["const", "enum", "oneOf", "anyOf", "type", "properties", "items"],
        fields.lookup key = none) : Compilable (.object fields)

/-- A schema has a type at every place, and the type has all values of the schema. -/
def HasSoundType (schema : Json) : Prop :=
  ∀ place : Pointer, ∃ type, typeOfNode place schema = .ok type ∧
    ∀ (dialect : Dialect) (value : Json), Valid dialect schema value → Inhabits type value

theorem HasSoundType.inhabits {schema : Json} (sound : HasSoundType schema) {place : Pointer}
    {type : TypeExpr} (typed : typeOfNode place schema = .ok type) {dialect : Dialect}
    {value : Json} (valid : Valid dialect schema value) : Inhabits type value := by
  obtain ⟨found, typed', holds⟩ := sound place
  rw [typed] at typed'
  cases typed'
  exact holds dialect value valid

section Keywords

variable (place : Pointer) {fields : List (String × Json)}

/-- A type has the values of one kind that meet the keywords of a node. -/
def Covers (fields : List (String × Json)) (kind : Json → Prop) (type : TypeExpr) : Prop :=
  ∀ (dialect : Dialect) (value : Json), Meets dialect (Valid dialect) fields value → kind value →
    Inhabits type value

/-! ## Alternatives -/

theorem typesOfItems_sound {items : List Json} (each : ∀ item ∈ items, HasSoundType item) :
    ∃ types, typesOfItems typeOfNode place 0 items = .ok types ∧
      ∀ (dialect : Dialect) (value : Json), ∀ item ∈ items, Valid dialect item value →
        ∃ type ∈ types, Inhabits type value := by
  rw [typesOfItems_eq]
  have typed : ∀ item ∈ items.zipIdx, ∃ type,
      typeOfNode (place.item item.2) item.1 = .ok type := by
    intro item mem
    obtain ⟨type, typed, -⟩ := each item.1 (List.fst_mem_of_mem_zipIdx mem) (place.item item.2)
    exact ⟨type, typed⟩
  obtain ⟨types, done⟩ := exists_mapM_eq_ok typed
  refine ⟨types, done, fun dialect value item mem valid => ?_⟩
  obtain ⟨position, here⟩ := List.mem_iff_getElem?.1 mem
  obtain ⟨type, there, typed⟩ :=
    exists_mem_of_mapM_left done (List.mk_mem_zipIdx_iff_getElem?.2 here)
  exact ⟨type, there, (each item mem).inhabits typed valid⟩

theorem alternatives_sound (keyword : String) {branches : List Json}
    (each : ∀ branch ∈ branches, HasSoundType branch) :
    ∃ type, alternatives typeOfNode place keyword (.array branches) = .ok type ∧
      ∀ (dialect : Dialect) (value : Json), ∀ branch ∈ branches, Valid dialect branch value →
        Inhabits type value := by
  obtain ⟨types, typed, holds⟩ := typesOfItems_sound (place.child keyword) each
  refine ⟨.unionOf types, by rw [alternatives, typed]; rfl, ?_⟩
  intro dialect value branch mem valid
  exact inhabits_unionOf (holds dialect value branch mem valid)

/-! ## Objects -/

theorem exists_members {value : Json} (object : HasTag "object" value) :
    ∃ members, value = .object members := by
  cases value <;> simp_all [HasTag]

theorem exists_items {value : Json} (array : HasTag "array" value) :
    ∃ items, value = .array items := by
  cases value <;> simp_all [HasTag]

theorem requiredNames_sound (shape : ObjectShape fields) :
    ∃ names, requiredNames place fields = .ok names ∧
      ∀ (dialect : Dialect) (members : List (String × Json)),
        Meets dialect (Valid dialect) fields (.object members) →
        ∀ name ∈ names, (members.lookup name).isSome := by
  unfold requiredNames
  cases found : fields.lookup "required" with
  | none => exact ⟨[], rfl, by simp⟩
  | some value =>
    obtain ⟨names, rfl⟩ := shape.required value found
    refine ⟨names, ?_, ?_⟩
    · exact mapM_eq_ok.2 (List.forall₂_map_left_iff.2 (List.forall₂_same.2 fun name _ => rfl))
    · intro dialect members meets name mem
      exact meets.required _ members found rfl name (List.mem_map_of_mem mem)

theorem noDeclared (shape : ObjectShape fields) : declaredInBranches place fields = [] := by
  rw [declaredInBranches, declaredUnder_eq, declaredUnder_eq, declaredUnderAllOf_eq,
    shape.noOthers "then" (by simp), shape.noOthers "else" (by simp),
    shape.noOthers "allOf" (by simp)]
  rfl

theorem ownFields_sound (required : List String) {entries : List (String × Json)}
    (each : ∀ entry ∈ entries, HasSoundType entry.2) :
    ∃ own, ownFields typeOfNode place required entries = .ok own ∧
      (own = [] ↔ entries = []) ∧
      ∀ (dialect : Dialect) (members : List (String × Json)),
        (∀ name ∈ required, (members.lookup name).isSome) →
        (∀ entry ∈ entries, ∀ member, members.lookup entry.1 = some member →
          Valid dialect entry.2 member) →
        HasFields own members := by
  rw [ownFields_eq]
  have typed : ∀ entry ∈ entries, ∃ field,
      ownField required entry <$> typeOfNode (place.child entry.1) entry.2 = .ok field := by
    intro entry mem
    obtain ⟨type, typed, -⟩ := each entry mem (place.child entry.1)
    exact ⟨_, map_eq_ok.2 ⟨type, typed, rfl⟩⟩
  obtain ⟨own, done⟩ := exists_mapM_eq_ok typed
  refine ⟨own, done, ?_, ?_⟩
  · rw [← List.length_eq_zero_iff, ← List.length_eq_zero_iff, (mapM_eq_ok.1 done).length_eq]
  · intro dialect members present valid
    rw [hasFields_iff]
    intro field mem
    obtain ⟨entry, there, typed⟩ := exists_mem_of_mapM_right done mem
    obtain ⟨type, found, rfl⟩ := map_eq_ok.1 typed
    refine ⟨fun value here => (each entry there).inhabits found (valid entry there value here), ?_⟩
    intro missing
    by_contra needed
    have needed : entry.1 ∈ required := by simpa [ownField] using needed
    have found := present entry.1 needed
    rw [show members.lookup entry.1 = none from missing] at found
    cases found

theorem propertyFields_sound (required : List String) (shape : ObjectShape fields)
    (each : ∀ entries, fields.lookup "properties" = some (.object entries) →
      ∀ entry ∈ entries, HasSoundType entry.2) :
    ∃ own, propertyFields typeOfNode place required fields = .ok own ∧
      (own = [] → ∀ entries, fields.lookup "properties" = some (.object entries) → entries = []) ∧
      ∀ (dialect : Dialect) (members : List (String × Json)),
        Meets dialect (Valid dialect) fields (.object members) →
        (∀ name ∈ required, (members.lookup name).isSome) → HasFields own members := by
  unfold propertyFields
  cases found : fields.lookup "properties" with
  | none => exact ⟨[], rfl, by simp, by simp [hasFields_iff]⟩
  | some value =>
    obtain ⟨entries, rfl, -⟩ := shape.properties value found
    obtain ⟨own, done, empty, holds⟩ :=
      ownFields_sound (place.child "properties") required (each entries found)
    refine ⟨own, done, ?_, ?_⟩
    · intro none entries' same
      cases same
      exact empty.1 none
    · intro dialect members meets present
      exact holds dialect members present (meets.properties entries members found rfl)

/-- Without properties every member of an object is an additional one. -/
theorem additional_of_noProperties (shape : ObjectShape fields)
    (empty : ∀ entries, fields.lookup "properties" = some (.object entries) → entries = [])
    (dialect : Dialect) (name : String) : Schema.Additional dialect fields name := by
  constructor
  · intro entries found
    simp [empty entries found]
  · intro patterns found
    rw [shape.noOthers "patternProperties" (by simp)] at found
    cases found

theorem fieldlessType_sound (shape : ObjectShape fields)
    (empty : ∀ entries, fields.lookup "properties" = some (.object entries) → entries = [])
    (additional : ∀ extra, fields.lookup "additionalProperties" = some extra →
      HasSoundType extra) :
    ∃ type, fieldlessType typeOfNode place fields = .ok type ∧
      Covers fields (HasTag "object") type := by
  have every := additional_of_noProperties shape empty
  unfold fieldlessType
  split
  · next found =>
    refine ⟨_, rfl, fun dialect value meets object => ?_⟩
    obtain ⟨members, rfl⟩ := exists_members object
    cases members with
    | nil => rfl
    | cons member rest =>
      have valid := meets.additionalProperties _ _ found rfl member List.mem_cons_self
        (every dialect member.1)
      cases valid
  · next extra found =>
    obtain ⟨type, typed, holds⟩ := additional _ found (place.child "additionalProperties")
    refine ⟨.record type, map_eq_ok.2 ⟨type, typed, rfl⟩, fun dialect value meets object => ?_⟩
    obtain ⟨members, rfl⟩ := exists_members object
    exact ⟨members, rfl, fun member mem => holds dialect member.2
      (meets.additionalProperties _ members found rfl member mem (every dialect member.1))⟩
  · next noFalse noObject =>
    -- Properties that are present are some, or the node says what else it allows.
    have absent : (fields.lookup "properties").isSome = false := by
      cases found : fields.lookup "properties" with
      | none => rfl
      | some value =>
        obtain ⟨entries, rfl, more⟩ := shape.properties value found
        rcases more with some | none | ⟨extra, object⟩
        · exact absurd (empty entries found) some
        · exact absurd none noFalse
        · exact absurd object (noObject extra)
    refine ⟨.record .unknown, by simp [absent], fun dialect value meets object => ?_⟩
    obtain ⟨members, rfl⟩ := exists_members object
    exact ⟨members, rfl, fun member mem => inhabits_unknown member.2⟩

theorem objectType_sound (shape : ObjectShape fields)
    (properties : ∀ entries, fields.lookup "properties" = some (.object entries) →
      ∀ entry ∈ entries, HasSoundType entry.2)
    (additional : ∀ extra, fields.lookup "additionalProperties" = some extra →
      HasSoundType extra) :
    ∃ type, objectType typeOfNode place fields = .ok type ∧
      Covers fields (HasTag "object") type := by
  obtain ⟨names, required, present⟩ := requiredNames_sound place shape
  obtain ⟨own, typed, empty, holds⟩ :=
    propertyFields_sound place names shape properties
  have steps : objectType typeOfNode place fields =
      if own.isEmpty then fieldlessType typeOfNode place fields else .ok (.object own) := by
    rw [objectType, required, noDeclared place shape]
    simp only [bind, Except.bind, typed, mergeDeclared]
  rw [steps]
  cases none : own.isEmpty with
  | true =>
    rw [if_pos rfl]
    exact fieldlessType_sound place shape (empty (List.isEmpty_iff.1 none)) additional
  | false =>
    rw [if_neg (by simp)]
    refine ⟨_, rfl, fun dialect value meets object => ?_⟩
    obtain ⟨members, rfl⟩ := exists_members object
    have some : own ≠ [] := by
      rintro rfl
      cases none
    exact (inhabits_object some).2
      ⟨members, rfl, holds dialect members meets (present dialect members meets)⟩

/-! ## Arrays and tags -/

theorem arrayType_sound
    (items : ∀ schema, fields.lookup "items" = some schema → HasSoundType schema) :
    ∃ type, arrayType typeOfNode place fields = .ok type ∧
      Covers fields (HasTag "array") type := by
  unfold arrayType
  split
  · refine ⟨_, rfl, fun dialect value meets array => ?_⟩
    obtain ⟨elements, rfl⟩ := exists_items array
    exact ⟨elements, rfl, fun item mem => inhabits_unknown item⟩
  · next schemas found =>
    obtain ⟨type, typed, -⟩ := items _ found []
    cases typed
  · next schema single found =>
    obtain ⟨type, typed, holds⟩ := items schema found (place.child "items")
    refine ⟨.array type, map_eq_ok.2 ⟨type, typed, rfl⟩, fun dialect value meets array => ?_⟩
    obtain ⟨elements, rfl⟩ := exists_items array
    exact ⟨elements, rfl, fun item mem =>
      holds dialect item (meets.items schema elements found single rfl item mem)⟩

theorem tagType_sound {tag : String} (generic : tag ∈ genericTags)
    (object : tag = "object" → ∃ type, objectType typeOfNode place fields = .ok type ∧
      Covers fields (HasTag "object") type)
    (array : tag = "array" → ∃ type, arrayType typeOfNode place fields = .ok type ∧
      Covers fields (HasTag "array") type) :
    ∃ type, tagType typeOfNode place fields tag = .ok type ∧ Covers fields (HasTag tag) type := by
  simp only [genericTags, List.mem_cons, List.not_mem_nil, or_false] at generic
  rcases generic with rfl | rfl | rfl | rfl | rfl | rfl | rfl
  · refine ⟨.string, rfl, fun dialect value _ kind => ?_⟩
    cases value <;> simp_all [HasTag, Inhabits, TypeExpr.string, RawValue]
  · refine ⟨.number, rfl, fun dialect value _ kind => ?_⟩
    cases value <;> simp_all [HasTag, Inhabits, TypeExpr.number, RawValue]
  · refine ⟨.number, rfl, fun dialect value _ kind => ?_⟩
    cases value <;> simp_all [HasTag, Inhabits, TypeExpr.number, RawValue]
  · refine ⟨.boolean, rfl, fun dialect value _ kind => ?_⟩
    cases value <;> simp_all [HasTag, Inhabits, TypeExpr.boolean, RawValue]
  · refine ⟨.null, rfl, fun dialect value _ kind => ?_⟩
    cases value <;> simp_all [HasTag, Inhabits, TypeExpr.null, RawValue]
  · exact object rfl
  · exact array rfl

theorem tagTypes_sound {tags : List String}
    (each : ∀ tag ∈ tags, ∃ type, tagType typeOfNode place fields tag = .ok type ∧
      Covers fields (HasTag tag) type) :
    ∃ types, tagTypes typeOfNode place fields (tags.map .string) = .ok types ∧
      ∀ (dialect : Dialect) (value : Json), Meets dialect (Valid dialect) fields value →
        ∀ tag ∈ tags, HasTag tag value → ∃ type ∈ types, Inhabits type value := by
  induction tags with
  | nil => exact ⟨[], rfl, by simp⟩
  | cons tag rest ih =>
    obtain ⟨⟨type, typed, covers⟩, each⟩ := List.forall_mem_cons.1 each
    obtain ⟨types, others, holds⟩ := ih each
    refine ⟨type :: types, by simp [tagTypes, typed, others, bind, Except.bind, pure, Except.pure],
      fun dialect value meets tag' mem kind => ?_⟩
    rcases List.mem_cons.1 mem with rfl | mem
    · exact ⟨type, List.mem_cons_self, covers dialect value meets kind⟩
    · obtain ⟨t, there, inhabits⟩ := holds dialect value meets tag' mem kind
      exact ⟨t, List.mem_cons_of_mem type there, inhabits⟩

theorem taggedType_sound {value : Json} {tags : List String}
    (found : fields.lookup "type" = some value) (lists : Lists value tags)
    (each : ∀ tag ∈ tags, ∃ type, tagType typeOfNode place fields tag = .ok type ∧
      Covers fields (HasTag tag) type) :
    ∃ type, taggedType typeOfNode place fields = .ok type ∧ Covers fields (fun _ => True) type := by
  unfold taggedType
  rw [found]
  cases lists with
  | one tag =>
    obtain ⟨type, typed, covers⟩ := each tag (by simp)
    refine ⟨type, typed, fun dialect value meets _ => ?_⟩
    obtain ⟨_, here, kind⟩ := meets.type _ _ found (.one tag)
    rw [List.mem_singleton.1 here] at kind
    exact covers dialect value meets kind
  | several =>
    obtain ⟨types, typed, holds⟩ := tagTypes_sound place each
    refine ⟨.unionOf types, map_eq_ok.2 ⟨types, typed, rfl⟩, fun dialect value meets _ => ?_⟩
    obtain ⟨tag, here, kind⟩ := meets.type _ _ found (.several tags)
    exact inhabits_unionOf (holds dialect value meets tag here kind)

end Keywords

/-- **Types only widen schemas.** A compilable schema has a type, at whatever place it stands, and
every value that is valid against the schema is a value of the type. -/
theorem types_widen_schemas {schema : Json} (compilable : Compilable schema) (place : Pointer) :
    ∃ type, typeOfNode place schema = .ok type ∧
      ∀ (dialect : Dialect) (value : Json), Valid dialect schema value → Inhabits type value := by
  suffices sound : HasSoundType schema from sound place
  clear place
  induction compilable with
  | bool accepts =>
    intro place
    cases accepts with
    | false => exact ⟨.never, rfl, fun dialect value valid => by simp at valid⟩
    | true => exact ⟨.unknown, rfl, fun dialect value _ => inhabits_unknown value⟩
  | @const fields literal found =>
    intro place
    refine ⟨.literal literal, ?_, fun dialect value valid => ?_⟩
    · rw [typeOfNode_object, fieldsType, found]
    · exact (valid_object.1 valid).const literal found
  | @enum fields literals first found =>
    intro place
    refine ⟨.unionOf (literals.map .literal), ?_, fun dialect value valid => ?_⟩
    · rw [typeOfNode_object, fieldsType, first, found]
    · obtain ⟨literal, mem, equal⟩ := (valid_object.1 valid).enum literals found
      exact inhabits_unionOf ⟨.literal literal, List.mem_map_of_mem mem, equal⟩
  | @oneOf fields branches first found _ ih =>
    intro place
    obtain ⟨type, typed, holds⟩ := alternatives_sound place "oneOf" ih
    refine ⟨type, ?_, fun dialect value valid => ?_⟩
    · rw [typeOfNode_object, fieldsType, first "const" (by simp), first "enum" (by simp), found]
      exact typed
    · obtain ⟨position, valid, -⟩ := (valid_object.1 valid).oneOf branches found
      exact holds dialect value _ (List.getElem_mem position.2) valid
  | @anyOf fields branches first found _ ih =>
    intro place
    obtain ⟨type, typed, holds⟩ := alternatives_sound place "anyOf" ih
    refine ⟨type, ?_, fun dialect value valid => ?_⟩
    · rw [typeOfNode_object, fieldsType, first "const" (by simp), first "enum" (by simp),
        first "oneOf" (by simp), found]
      exact typed
    · obtain ⟨branch, mem, valid⟩ := (valid_object.1 valid).anyOf branches found
      exact holds dialect value branch mem valid
  | @type fields value tags first found lists generic shape _ _ _ properties additional items =>
    intro place
    obtain ⟨type, typed, covers⟩ := taggedType_sound place found lists fun tag mem =>
      tagType_sound place (generic tag mem)
        (fun object => objectType_sound place (shape (object ▸ mem)) (properties (object ▸ mem))
          (additional (object ▸ mem)))
        (fun array => arrayType_sound place (items (array ▸ mem)))
    refine ⟨type, ?_, fun dialect value valid => covers dialect value (valid_object.1 valid) trivial⟩
    rw [typeOfNode_object, fieldsType, first "const" (by simp), first "enum" (by simp),
      first "oneOf" (by simp), first "anyOf" (by simp)]
    exact typed
  | @anything fields none =>
    intro place
    refine ⟨.unknown, ?_, fun dialect value _ => inhabits_unknown value⟩
    rw [typeOfNode_object, fieldsType, none "const" (by simp), none "enum" (by simp),
      none "oneOf" (by simp), none "anyOf" (by simp)]
    rw [taggedType, none "type" (by simp), none "properties" (by simp), none "items" (by simp)]
    rfl

/-! ## A peer -/

/-- The dialect without patterns and further keywords. -/
def plainDialect : Dialect :=
  ⟨fun _ _ => False, fun _ _ => True⟩

/-- A choice between two literals. -/
def stateSchema : Json :=
  .object [("oneOf", .array [.object [("const", .number (.int 1))],
    .object [("const", .string "gone")]])]

/-- An object with a required and an optional field, or null. -/
def peerSchema : Json :=
  .object [("type", .array [.string "object", .string "null"]),
    ("required", .array [.string "id"]),
    ("properties", .object [("id", .object [("type", .string "string")]), ("state", stateSchema)]),
    ("additionalProperties", .bool false)]

theorem compilable_stateSchema : Compilable stateSchema := by
  refine .oneOf (by decide) rfl fun branch mem => ?_
  simp only [List.mem_cons, List.not_mem_nil, or_false] at mem
  rcases mem with rfl | rfl
  · exact .const rfl
  · exact .const rfl

theorem compilable_peerSchema : Compilable peerSchema := by
  have shape : ObjectShape
      [("type", .array [.string "object", .string "null"]),
        ("required", .array [.string "id"]),
        ("properties", .object
          [("id", .object [("type", .string "string")]), ("state", stateSchema)]),
        ("additionalProperties", .bool false)] := by
    refine ⟨fun value found => ?_, fun value found => ?_, by decide⟩
    · cases found
      exact ⟨["id"], rfl⟩
    · cases found
      exact ⟨_, rfl, Or.inl (by simp)⟩
  refine .type (by decide) rfl (.several ["object", "null"]) (by decide) (fun _ => shape) ?_ ?_ ?_
  · intro _ entries found entry mem
    cases found
    simp only [List.mem_cons, List.not_mem_nil, or_false] at mem
    rcases mem with rfl | rfl
    · exact .type (by decide) rfl (.one "string") (by decide) (by simp) (by simp) (by simp) (by simp)
    · exact compilable_stateSchema
  · intro _ extra found
    cases found
    exact .bool false
  · intro array
    simp at array

/-- A peer whose state is the number one, written with a fraction. -/
def peerValue : Json :=
  .object [("state", .number (.real ⟨false, 4503599627370496, -52⟩)), ("id", .string "a")]

theorem valid_const (literal value : Json) :
    Valid plainDialect (.object [("const", literal)]) value ↔ literal.Equal value := by
  rw [valid_object]
  constructor
  · intro meets
    exact meets.const literal rfl
  · intro equal
    refine ⟨fun other found => ?_, nofun, nofun, nofun, nofun, nofun, nofun, nofun, nofun, nofun,
      trivial⟩
    cases found
    exact equal

theorem valid_stateSchema :
    Valid plainDialect stateSchema (.number (.real ⟨false, 4503599627370496, -52⟩)) := by
  rw [stateSchema, valid_object]
  refine ⟨nofun, nofun, fun branches found => ?_, nofun, nofun, nofun, nofun, nofun, nofun, nofun,
    trivial⟩
  cases found
  refine ⟨0, (valid_const _ _).2 ?_, fun position valid => ?_⟩
  · change ((1 : ℤ) : ℚ) = _
    rw [Json.Number.value, Binary64.value]
    norm_num
  · cases position using Fin.cases with
    | zero => rfl
    | succ position =>
      obtain rfl : position = 0 := Fin.fin_one_eq_zero position
      exact ((valid_const _ _).1 valid).elim

theorem valid_peerSchema : Valid plainDialect peerSchema peerValue := by
  rw [peerSchema, valid_object]
  refine ⟨nofun, nofun, nofun, nofun, fun tags names found lists => ?type,
    fun names members found object name mem => ?required,
    fun entries members found object entry mem member there => ?properties,
    fun extra members found object member mem additional => ?additional, nofun, nofun, trivial⟩
  case type =>
    cases found
    generalize tags : Json.array _ = listed at lists
    cases lists with
    | one tag => cases tags
    | several names =>
      have here : Json.string "object" ∈ names.map Json.string := by
        rw [← Json.array.inj tags]
        simp
      obtain ⟨tag, mem, same⟩ := List.mem_map.1 here
      exact ⟨tag, mem, Json.string.inj same⟩
  case required =>
    cases found
    cases object
    rw [Json.string.inj (List.mem_singleton.1 mem)]
    rfl
  case properties =>
    cases found
    cases object
    simp only [List.mem_cons, List.not_mem_nil, or_false] at mem
    rcases mem with rfl | rfl
    · cases there
      rw [valid_object]
      refine ⟨nofun, nofun, nofun, nofun, fun tags names found lists => ?_, nofun, nofun, nofun,
        nofun, nofun, trivial⟩
      cases found
      cases lists
      exact ⟨"string", by simp, rfl⟩
    · cases there
      exact valid_stateSchema
  case additional =>
    cases found
    cases object
    have known := additional.1 _ rfl
    simp only [List.mem_cons, List.not_mem_nil, or_false] at mem
    rcases mem with rfl | rfl <;> simp at known

/-- A peer has the type of its schema. -/
theorem types_widen_schemas_peer :
    Compilable peerSchema ∧ ∃ type, typeOfNode [] peerSchema = .ok type ∧
      Valid plainDialect peerSchema peerValue ∧ Inhabits type peerValue := by
  obtain ⟨type, typed, sound⟩ := types_widen_schemas compilable_peerSchema []
  exact ⟨compilable_peerSchema, type, typed, valid_peerSchema,
    sound plainDialect peerValue valid_peerSchema⟩

end Bindery.TypeScript
