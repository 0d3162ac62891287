import Bindery.Proofs.Json.Keys
import Bindery.Proofs.Schema.TagTable
import Bindery.Schema.Report

/-!
# Normal forms

What stays of a schema is normal: no item, entry or field of it is deprecated, a map from names to
schemas aside, and no `type` has a tag of the table. A normal schema is its own normal form, with
nothing left out and nothing mapped.

A value has one of two roles. It is a schema node, or a map from names to schemas.
-/

namespace Bindery.Schema
set_option autoImplicit false

open Json (Pointer DistinctKeys)

/-- What a value is to the node that holds it. -/
inductive Role where
  | node
  | map
deriving DecidableEq

/-- The role of the value under a key of a node. -/
def roleOf (key : String) : Role :=
  if isSchemaMap key then .map else .node

/-- A value of either role in normal form. -/
def normalIn (table : TagTable) : Role → Json → Json
  | .node => normalNode table
  | .map => normalMap table

theorem normalIn_array (table : TagTable) (role : Role) (items : List Json) :
    normalIn table role (.array items) = .array (normalItems table items) := by
  cases role <;> rfl

/-- The places left out of a value of either role. -/
def prunedIn (place : Pointer) : Role → Json → List Pointer
  | .node => prunedNode place
  | .map => prunedMap place

/-- The tags mapped in what stays of a value of either role. -/
def mappedIn (table : TagTable) (place : Pointer) : Role → Json → List (Pointer × Mapping)
  | .node => mappedNode table place
  | .map => mappedInMap table place

/-- Whether a field of a node stays. -/
def staysField (field : String × Json) : Bool :=
  isSchemaMap field.1 || !isDeprecated field.2

@[simp]
theorem normalField_fst (table : TagTable) (names : List String) (field : String × Json) :
    (normalField table names field).1 = field.1 := by
  unfold normalField
  split
  · rfl
  · split <;> rfl

/-! ## Lists of parts -/

theorem normalItems_eq (table : TagTable) (items : List Json) :
    normalItems table items = (items.filter (!isDeprecated ·)).map (normalNode table) := by
  induction items with
  | nil => rfl
  | cons item rest ih =>
    unfold normalItems
    cases mark : isDeprecated item <;> simp [mark, ih]

theorem normalEntries_eq (table : TagTable) (entries : List (String × Json)) :
    normalEntries table entries =
      (entries.filter (!isDeprecated ·.2)).map fun e => (e.1, normalNode table e.2) := by
  induction entries with
  | nil => rfl
  | cons entry rest ih =>
    obtain ⟨name, schema⟩ := entry
    unfold normalEntries
    cases mark : isDeprecated schema <;> simp [mark, ih]

theorem normalFields_eq (table : TagTable) (fields : List (String × Json)) :
    normalFields table fields =
      (fields.filter staysField).map fun f => (f.1, normalIn table (roleOf f.1) f.2) := by
  induction fields with
  | nil => rfl
  | cons field rest ih =>
    obtain ⟨key, value⟩ := field
    unfold normalFields
    cases named : isSchemaMap key
    · cases mark : isDeprecated value <;> simp [staysField, named, mark, ih, roleOf, normalIn]
    · simp [staysField, named, ih, roleOf, normalIn]

theorem normalNode_object (table : TagTable) (fields : List (String × Json)) :
    normalNode table (.object fields) =
      .object ((normalFields table fields).map (normalField table (deprecatedNames fields))) := by
  rw [normalNode]

theorem prunedItems_eq (place : Pointer) (position : Nat) (items : List Json) :
    prunedItems place position items = (items.zipIdx position).flatMap fun item =>
      if isDeprecated item.1 then [place.item item.2] else prunedNode (place.item item.2) item.1 := by
  induction items generalizing position with
  | nil => rfl
  | cons item rest ih => rw [prunedItems, ih, List.zipIdx_cons, List.flatMap_cons]

theorem prunedEntries_eq (place : Pointer) (entries : List (String × Json)) :
    prunedEntries place entries = entries.flatMap fun e =>
      if isDeprecated e.2 then [place.child e.1] else prunedNode (place.child e.1) e.2 := by
  induction entries with
  | nil => rfl
  | cons entry rest ih => rw [prunedEntries, ih, List.flatMap_cons]

theorem prunedFields_eq (place : Pointer) (fields : List (String × Json)) :
    prunedFields place fields = fields.flatMap fun f =>
      if staysField f then prunedIn (place.child f.1) (roleOf f.1) f.2
      else [place.child f.1] := by
  induction fields with
  | nil => rfl
  | cons field rest ih =>
    obtain ⟨key, value⟩ := field
    rw [prunedFields, ih, List.flatMap_cons]
    cases named : isSchemaMap key
    · cases mark : isDeprecated value <;> simp [staysField, named, mark, roleOf, prunedIn]
    · simp [staysField, named, roleOf, prunedIn]

theorem mappedItems_eq (table : TagTable) (place : Pointer) (position : Nat) (items : List Json) :
    mappedItems table place position items = (items.zipIdx position).flatMap fun item =>
      if isDeprecated item.1 then [] else mappedNode table (place.item item.2) item.1 := by
  induction items generalizing position with
  | nil => rfl
  | cons item rest ih => rw [mappedItems, ih, List.zipIdx_cons, List.flatMap_cons]

theorem mappedEntries_eq (table : TagTable) (place : Pointer) (entries : List (String × Json)) :
    mappedEntries table place entries = entries.flatMap fun e =>
      if isDeprecated e.2 then [] else mappedNode table (place.child e.1) e.2 := by
  induction entries with
  | nil => rfl
  | cons entry rest ih => rw [mappedEntries, ih, List.flatMap_cons]

theorem mappedFields_eq (table : TagTable) (place : Pointer) (fields : List (String × Json)) :
    mappedFields table place fields = fields.flatMap fun f =>
      if staysField f then mappedIn table (place.child f.1) (roleOf f.1) f.2 else [] := by
  induction fields with
  | nil => rfl
  | cons field rest ih =>
    obtain ⟨key, value⟩ := field
    rw [mappedFields, ih, List.flatMap_cons]
    cases named : isSchemaMap key
    · cases mark : isDeprecated value <;> simp [staysField, named, mark, roleOf, mappedIn]
    · simp [staysField, named, roleOf, mappedIn]

/-! ## Looking up a field -/

theorem lookup_normalFields (table : TagTable) {fields : List (String × Json)}
    (keys : (fields.map (·.1)).Nodup) (key : String) :
    (normalFields table fields).lookup key =
      ((fields.lookup key).filter fun v => staysField (key, v)).map
        (normalIn table (roleOf key)) := by
  rw [normalFields_eq]
  induction fields with
  | nil => rfl
  | cons field rest ih =>
    obtain ⟨k, v⟩ := field
    obtain ⟨fresh, keys⟩ := List.nodup_cons.1 keys
    have ih := ih keys
    by_cases same : key = k
    · subst same
      have gone : rest.lookup key = none := by
        rw [List.lookup_eq_none_iff]
        intro field mem
        have other : key ≠ field.1 := fun same => fresh (List.mem_map.2 ⟨field, mem, same.symm⟩)
        simpa using other
      rw [gone] at ih
      cases stays : staysField (key, v)
      · rw [List.filter_cons_of_neg (by simp [stays]), ih]
        simp [Option.filter, stays]
      · rw [List.filter_cons_of_pos stays]
        simp [Option.filter, stays]
    · have other : (key == k) = false := beq_eq_false_iff_ne.2 same
      cases stays : staysField (k, v)
      · simpa [List.lookup_cons, stays, other] using ih
      · simpa [List.lookup_cons, stays, other] using ih

theorem lookup_map_normalField (table : TagTable) (names : List String)
    (fields : List (String × Json)) (key : String) :
    (fields.map (normalField table names)).lookup key =
      (fields.lookup key).map fun v => (normalField table names (key, v)).2 := by
  induction fields with
  | nil => rfl
  | cons field rest ih =>
    obtain ⟨k, v⟩ := field
    have head : normalField table names (k, v) = (k, (normalField table names (k, v)).2) :=
      Prod.ext (normalField_fst table names (k, v)) rfl
    rw [List.map_cons, head, List.lookup_cons, List.lookup_cons, ih]
    by_cases same : key = k
    · simp [same]
    · simp [beq_eq_false_iff_ne.2 same]

section Lookup

variable {table : TagTable} {fields stays : List (String × Json)} {key : String}
  (normal : normalNode table (.object fields) = .object stays)
  (distinct : (fields.map (·.1)).Nodup)
include normal distinct

/-- Under most keys a node in normal form has what stays, in the normal form of its role. -/
theorem lookup_stays (noRequired : key ≠ "required") (noType : key ≠ "type") :
    stays.lookup key =
      ((fields.lookup key).filter fun v => staysField (key, v)).map
        (normalIn table (roleOf key)) := by
  rw [normalNode_object] at normal
  cases normal
  have same : ∀ names value, (normalField table names (key, value)).2 = value := by
    simp [normalField, noRequired, noType]
  rw [lookup_map_normalField, lookup_normalFields table distinct]
  simp only [same, Option.map_id']

theorem lookup_stays_node (plain : isSchemaMap key = false ∧ key ≠ "required" ∧ key ≠ "type") :
    stays.lookup key =
      ((fields.lookup key).filter fun v => !isDeprecated v).map (normalNode table) := by
  obtain ⟨noMap, noRequired, noType⟩ := plain
  rw [lookup_stays normal distinct noRequired noType]
  simp [roleOf, staysField, noMap, normalIn]

theorem lookup_stays_map (map : isSchemaMap key = true) :
    stays.lookup key = (fields.lookup key).map (normalMap table) := by
  have other : key ≠ "required" ∧ key ≠ "type" := by
    constructor <;> (rintro rfl; cases map)
  rw [lookup_stays normal distinct other.1 other.2]
  cases fields.lookup key with
  | none => rfl
  | some value => simp [roleOf, staysField, map, normalIn]

end Lookup

/-! ## Deprecation marks of what stays -/

theorem isDeprecated_withoutNames (names : List String) (value : Json) :
    isDeprecated (withoutNames names value) = isDeprecated value := by
  cases value <;> rfl

theorem isDeprecated_mapTags (table : TagTable) (value : Json) :
    isDeprecated (mapTags table value) = isDeprecated value := by
  cases value <;> rfl

/-- A node keeps its deprecation mark. -/
theorem isDeprecated_normalNode (table : TagTable) {node : Json} (keys : DistinctKeys node) :
    isDeprecated (normalNode table node) = isDeprecated node := by
  cases keys with
  | @object fields keys each =>
    have role : roleOf "deprecated" = .node := by decide
    have found := lookup_map_normalField table (deprecatedNames fields)
      (normalFields table fields) "deprecated"
    rw [lookup_normalFields table keys, role] at found
    unfold isDeprecated Json.get?
    rw [normalNode_object]
    simp only [found]
    cases there : fields.lookup "deprecated" with
    | none => rfl
    | some mark =>
      cases stays : isDeprecated mark
      · simp only [Option.filter, staysField, stays, Option.map, normalIn, normalField]
        cases mark <;> rfl
      · -- Only an object carries a mark, and an object is none.
        simp only [Option.filter, staysField, stays, Option.map]
        cases mark with
        | object _ => rfl
        | _ => cases stays
  | _ => rfl

/-! ## Normal forms -/

/-- What `normalNode` and `normalMap` leave: nothing deprecated, and no tag of the table. -/
inductive IsNormal (table : TagTable) : Role → Json → Prop
  | null (role : Role) : IsNormal table role .null
  | bool (role : Role) (b : Bool) : IsNormal table role (.bool b)
  | number (role : Role) (n : Json.Number) : IsNormal table role (.number n)
  | string (role : Role) (s : String) : IsNormal table role (.string s)
  | array (role : Role) {items : List Json} (kept : ∀ item ∈ items, isDeprecated item = false)
      (each : ∀ item ∈ items, IsNormal table .node item) : IsNormal table role (.array items)
  | map {entries : List (String × Json)} (kept : ∀ entry ∈ entries, isDeprecated entry.2 = false)
      (each : ∀ entry ∈ entries, IsNormal table .node entry.2) :
      IsNormal table .map (.object entries)
  | node {fields : List (String × Json)} (kept : ∀ field ∈ fields, staysField field = true)
      (each : ∀ field ∈ fields, IsNormal table (roleOf field.1) field.2)
      (generic : ∀ field ∈ fields, field.1 = "type" →
        ∀ tag ∈ tagsOf field.2, table.lookup tag = none) :
      IsNormal table .node (.object fields)

/-! ## Tags -/

theorem mapTagItems_eq (table : TagTable) (items : List Json) :
    mapTagItems table items = items.map (mapTags table) := by
  induction items with
  | nil => rfl
  | cons item rest ih => rw [mapTagItems, ih, List.map_cons]

theorem tagsOfItems_eq (items : List Json) : tagsOfItems items = items.flatMap tagsOf := by
  induction items with
  | nil => rfl
  | cons item rest ih => rw [tagsOfItems, ih, List.flatMap_cons]

theorem mem_tagsOf_mapTags {table : TagTable} (tags : Json) {tag : String}
    (mem : tag ∈ tagsOf (mapTags table tags)) : ∃ old ∈ tagsOf tags, tag = genericTag table old := by
  induction tags using Json.induct with
  | string old =>
    rw [mapTags, tagsOf, List.mem_singleton] at mem
    exact ⟨old, by simp [tagsOf], mem⟩
  | array items ih =>
    rw [mapTags, tagsOf, tagsOfItems_eq, mapTagItems_eq, List.mem_flatMap] at mem
    obtain ⟨_, mapped, mem⟩ := mem
    obtain ⟨item, there, rfl⟩ := List.mem_map.1 mapped
    obtain ⟨old, inside, equal⟩ := ih item there mem
    refine ⟨old, ?_, equal⟩
    rw [tagsOf, tagsOfItems_eq, List.mem_flatMap]
    exact ⟨item, there, inside⟩
  | null | bool _ | number _ | object _ _ => simp [mapTags, tagsOf] at mem

theorem mapTags_eq_self {table : TagTable} (tags : Json)
    (unknown : ∀ tag ∈ tagsOf tags, table.lookup tag = none) : mapTags table tags = tags := by
  induction tags using Json.induct with
  | string tag =>
    rw [mapTags, genericTag_eq_self (unknown tag (by simp [tagsOf]))]
  | array items ih =>
    rw [tagsOf, tagsOfItems_eq] at unknown
    have each : ∀ item ∈ items, mapTags table item = item := by
      intro item mem
      exact ih item mem fun tag inside => unknown tag (List.mem_flatMap.2 ⟨item, mem, inside⟩)
    rw [mapTags, mapTagItems_eq, List.map_congr_left each, List.map_id']
  | null | bool _ | number _ | object _ _ => rfl

/-! ## A schema in normal form is normal -/

theorem IsNormal.mapTags {table : TagTable} {role : Role} {value : Json}
    (h : IsNormal table role value) : IsNormal table role (mapTags table value) := by
  induction h with
  | null role => exact .null role
  | bool role b => exact .bool role b
  | number role n => exact .number role n
  | string role s => exact .string role _
  | array role kept _ ih =>
    rw [Schema.mapTags, mapTagItems_eq]
    refine .array role ?_ ?_
    · intro item mem
      obtain ⟨old, there, rfl⟩ := List.mem_map.1 mem
      rw [isDeprecated_mapTags]
      exact kept old there
    · intro item mem
      obtain ⟨old, there, rfl⟩ := List.mem_map.1 mem
      exact ih old there
  | map kept each _ => exact .map kept each
  | node kept each generic _ => exact .node kept each generic

theorem IsNormal.withoutNames {table : TagTable} {role : Role} {value : Json} (names : List String)
    (h : IsNormal table role value) : IsNormal table role (withoutNames names value) := by
  cases h with
  | array _ kept each =>
    exact .array _ (fun item mem => kept item (List.mem_filter.1 mem).1) fun item mem =>
      each item (List.mem_filter.1 mem).1
  | null => exact .null _
  | bool => exact .bool _ _
  | number => exact .number _ _
  | string => exact .string _ _
  | map kept each => exact .map kept each
  | node kept each generic => exact .node kept each generic

theorem normalField_snd_normal {table : TagTable} {role : Role} (names : List String)
    {field : String × Json} (h : IsNormal table role field.2) :
    IsNormal table role (normalField table names field).2 := by
  unfold normalField
  split
  · exact h.withoutNames names
  · split
    · exact h.mapTags
    · exact h

theorem isDeprecated_normalField (table : TagTable) (names : List String) (field : String × Json) :
    isDeprecated (normalField table names field).2 = isDeprecated field.2 := by
  unfold normalField
  split
  · exact isDeprecated_withoutNames names field.2
  · split
    · exact isDeprecated_mapTags table field.2
    · rfl

section Normal

variable {table : TagTable}

theorem normal_items {items : List Json} (role : Role) (keys : ∀ item ∈ items, DistinctKeys item)
    (each : ∀ item ∈ items, IsNormal table .node (normalNode table item)) :
    IsNormal table role (.array (normalItems table items)) := by
  rw [normalItems_eq]
  refine .array role ?_ ?_
  · intro item mem
    obtain ⟨old, there, rfl⟩ := List.mem_map.1 mem
    obtain ⟨there, kept⟩ := List.mem_filter.1 there
    rw [isDeprecated_normalNode table (keys old there)]
    simpa using kept
  · intro item mem
    obtain ⟨old, there, rfl⟩ := List.mem_map.1 mem
    exact each old (List.mem_filter.1 there).1

theorem normal_entries {entries : List (String × Json)}
    (keys : ∀ entry ∈ entries, DistinctKeys entry.2)
    (each : ∀ entry ∈ entries, IsNormal table .node (normalNode table entry.2)) :
    IsNormal table .map (.object (normalEntries table entries)) := by
  rw [normalEntries_eq]
  refine .map ?_ ?_
  · intro entry mem
    obtain ⟨old, there, rfl⟩ := List.mem_map.1 mem
    obtain ⟨there, kept⟩ := List.mem_filter.1 there
    rw [isDeprecated_normalNode table (keys old there)]
    simpa using kept
  · intro entry mem
    obtain ⟨old, there, rfl⟩ := List.mem_map.1 mem
    exact each old (List.mem_filter.1 there).1

theorem normal_fields (reachable : table.Reachable) {fields : List (String × Json)}
    (keys : ∀ field ∈ fields, DistinctKeys field.2)
    (each : ∀ field ∈ fields, ∀ role, IsNormal table role (normalIn table role field.2)) :
    IsNormal table .node (normalNode table (.object fields)) := by
  have origin : ∀ field ∈ (normalFields table fields).map
      (normalField table (deprecatedNames fields)), ∃ old ∈ fields, staysField old = true ∧
        field = normalField table (deprecatedNames fields)
          (old.1, normalIn table (roleOf old.1) old.2) := by
    intro field mem
    rw [normalFields_eq, List.map_map] at mem
    obtain ⟨old, there, rfl⟩ := List.mem_map.1 mem
    obtain ⟨there, kept⟩ := List.mem_filter.1 there
    exact ⟨old, there, kept, rfl⟩
  rw [normalNode_object]
  refine .node ?_ ?_ ?_
  · intro field mem
    obtain ⟨old, there, kept, rfl⟩ := origin field mem
    unfold staysField at kept ⊢
    rw [normalField_fst, isDeprecated_normalField]
    cases named : isSchemaMap old.1
    · have role : roleOf old.1 = .node := by simp [roleOf, named]
      rw [role, normalIn, isDeprecated_normalNode table (keys old there)]
      simpa [named] using kept
    · rfl
  · intro field mem
    obtain ⟨old, there, _, rfl⟩ := origin field mem
    rw [normalField_fst]
    exact normalField_snd_normal _ (each old there (roleOf old.1))
  · intro field mem isType tag inside
    obtain ⟨old, _, _, rfl⟩ := origin field mem
    rw [normalField_fst] at isType
    simp only at isType
    unfold normalField at inside
    rw [if_neg (by simp [isType]), if_pos isType] at inside
    obtain ⟨before, _, rfl⟩ := mem_tagsOf_mapTags _ inside
    exact lookup_genericTag reachable before

/-- **A schema in normal form is normal.** -/
theorem isNormal_normalIn (reachable : table.Reachable) {value : Json} (keys : DistinctKeys value)
    (role : Role) : IsNormal table role (normalIn table role value) := by
  induction keys generalizing role with
  | null => cases role <;> exact .null _
  | bool b => cases role <;> exact .bool _ b
  | number n => cases role <;> exact .number _ n
  | string s => cases role <;> exact .string _ s
  | array keys ih =>
    cases role with
    | node => exact normal_items .node keys fun item mem => ih item mem .node
    | map => exact normal_items .map keys fun item mem => ih item mem .node
  | object _ keys ih =>
    cases role with
    | node => exact normal_fields reachable keys ih
    | map => exact normal_entries keys fun entry mem => ih entry mem .node

end Normal

/-! ## A normal schema stays as it is -/

section Fixed

variable {table : TagTable}

theorem withoutNames_nil (value : Json) : withoutNames [] value = value := by
  cases value with
  | array items =>
    rw [withoutNames, List.filter_eq_self.2]
    intro item _
    cases item <;> simp
  | _ => rfl

theorem ownTags_eq_nil {fields : List (String × Json)}
    (generic : ∀ field ∈ fields, field.1 = "type" →
      ∀ tag ∈ tagsOf field.2, table.lookup tag = none) : ownTags table fields = [] := by
  unfold ownTags
  split
  · next tags found =>
    rw [List.filterMap_eq_nil_iff]
    intro tag mem
    obtain ⟨before, after, equal, _⟩ := List.lookup_eq_some_iff.1 found
    exact generic ("type", tags) (equal ▸ by simp) rfl tag mem
  · rfl

theorem deprecatedNames_eq_nil {fields : List (String × Json)}
    (each : ∀ field ∈ fields, IsNormal table (roleOf field.1) field.2) :
    deprecatedNames fields = [] := by
  unfold deprecatedNames
  split
  · next properties found =>
    obtain ⟨before, after, equal, _⟩ := List.lookup_eq_some_iff.1 found
    have normal : IsNormal table .map (.object properties) :=
      each ("properties", .object properties) (equal ▸ by simp)
    cases normal with
    | map kept _ =>
      rw [List.filter_eq_nil_iff.2 fun entry mem => by simp [kept entry mem]]
      rfl
  · rfl

theorem normalField_nil {field : String × Json}
    (generic : field.1 = "type" → ∀ tag ∈ tagsOf field.2, table.lookup tag = none) :
    normalField table [] field = field := by
  unfold normalField
  split
  · rw [withoutNames_nil]
  · split
    · next isType => rw [mapTags_eq_self _ (generic isType)]
    · rfl

theorem normalItems_eq_self {items : List Json} (kept : ∀ item ∈ items, isDeprecated item = false)
    (each : ∀ item ∈ items, normalNode table item = item) : normalItems table items = items := by
  rw [normalItems_eq, List.filter_eq_self.2 fun item mem => by simp [kept item mem],
    List.map_congr_left each, List.map_id']

/-- A normal value is its own normal form. -/
theorem IsNormal.normalIn_eq {role : Role} {value : Json} (h : IsNormal table role value) :
    normalIn table role value = value := by
  induction h with
  | null role | bool role | number role | string role => cases role <;> rfl
  | array role kept _ ih =>
    have same := normalItems_eq_self kept ih
    cases role with
    | node => rw [normalIn, normalNode, same]
    | map => rw [normalIn, normalMap, same]
  | @map entries kept _ ih =>
    have each : ∀ entry ∈ entries, (entry.1, normalNode table entry.2) = entry :=
      fun entry mem => Prod.ext rfl (ih entry mem)
    rw [normalIn, normalMap, normalEntries_eq,
      List.filter_eq_self.2 fun entry mem => by simp [kept entry mem],
      List.map_congr_left each, List.map_id']
  | @node fields kept each generic ih =>
    have values : ∀ field ∈ fields, (field.1, normalIn table (roleOf field.1) field.2) = field :=
      fun field mem => Prod.ext rfl (ih field mem)
    have fixed : ∀ field ∈ fields, normalField table [] field = field :=
      fun field mem => normalField_nil (generic field mem)
    rw [normalIn, normalNode_object, deprecatedNames_eq_nil each, normalFields_eq,
      List.filter_eq_self.2 kept, List.map_congr_left values, List.map_id',
      List.map_congr_left fixed, List.map_id']

/-- Nothing of a normal value is left out. -/
theorem IsNormal.prunedIn_eq {role : Role} {value : Json} (h : IsNormal table role value)
    (place : Pointer) : prunedIn place role value = [] := by
  induction h generalizing place with
  | null role | bool role | number role | string role => cases role <;> rfl
  | @array role items kept _ ih =>
    have none : prunedItems place 0 items = [] := by
      rw [prunedItems_eq, List.flatMap_eq_nil_iff]
      intro item mem
      have there : item.1 ∈ items := List.fst_mem_of_mem_zipIdx mem
      rw [if_neg (by simp [kept item.1 there])]
      exact ih item.1 there (place.item item.2)
    cases role with
    | node => rw [prunedIn, prunedNode, none]
    | map => rw [prunedIn, prunedMap, none]
  | map kept _ ih =>
    rw [prunedIn, prunedMap, prunedEntries_eq, List.flatMap_eq_nil_iff]
    intro entry mem
    rw [if_neg (by simp [kept entry mem])]
    exact ih entry mem (place.child entry.1)
  | node kept _ _ ih =>
    rw [prunedIn, prunedNode, prunedFields_eq, List.flatMap_eq_nil_iff]
    intro field mem
    rw [if_pos (kept field mem)]
    exact ih field mem (place.child field.1)

/-- No tag of a normal value is mapped. -/
theorem IsNormal.mappedIn_eq {role : Role} {value : Json} (h : IsNormal table role value)
    (place : Pointer) : mappedIn table place role value = [] := by
  induction h generalizing place with
  | null role | bool role | number role | string role => cases role <;> rfl
  | @array role items kept _ ih =>
    have none : mappedItems table place 0 items = [] := by
      rw [mappedItems_eq, List.flatMap_eq_nil_iff]
      intro item mem
      have there : item.1 ∈ items := List.fst_mem_of_mem_zipIdx mem
      rw [if_neg (by simp [kept item.1 there])]
      exact ih item.1 there (place.item item.2)
    cases role with
    | node => rw [mappedIn, mappedNode, none]
    | map => rw [mappedIn, mappedInMap, none]
  | map kept _ ih =>
    rw [mappedIn, mappedInMap, mappedEntries_eq, List.flatMap_eq_nil_iff]
    intro entry mem
    rw [if_neg (by simp [kept entry mem])]
    exact ih entry mem (place.child entry.1)
  | @node fields kept _ generic ih =>
    have none : mappedFields table place fields = [] := by
      rw [mappedFields_eq, List.flatMap_eq_nil_iff]
      intro field mem
      rw [if_pos (kept field mem)]
      exact ih field mem (place.child field.1)
    rw [mappedIn, mappedNode, none, ownTags_eq_nil generic]
    rfl

end Fixed

/-- **Normalizing twice is normalizing once.** What a table gives is left as it is by the same table:
nothing is left out, and no tag is mapped. -/
theorem normalize_idempotent {table : TagTable} (reachable : table.Reachable) {schema : Json}
    (keys : schema.DistinctKeys) :
    normalize table (normalize table schema).schema =
      { schema := (normalize table schema).schema
        report := { pruned := [], lossy := [], mapped := 0 } } := by
  have normal : IsNormal table .node (normalNode table schema) :=
    isNormal_normalIn reachable keys .node
  have same : normalNode table (normalNode table schema) = normalNode table schema :=
    normal.normalIn_eq
  have nonePruned : prunedNode [] (normalNode table schema) = [] := normal.prunedIn_eq []
  have noneMapped : mappedNode table [] (normalNode table schema) = [] := normal.mappedIn_eq []
  simp only [normalize, same, nonePruned, noneMapped]
  rfl

/-- A required property that is deprecated, and a `type` with a tag of the project's own. -/
theorem normalize_idempotent_outpoint :
    let table : TagTable := ⟨TagTable.builtin.entries ++ [("outpoint", ⟨.text, false⟩)]⟩
    let schema : Json := .object
      [("type", .array [.string "outpoint", .string "u64"]),
        ("required", .array [.string "id", .string "legacy"]),
        ("properties", .object
          [("id", .object [("type", .string "txid")]),
            ("legacy", .object [("deprecated", .bool true)])])]
    table.Reachable ∧ schema.DistinctKeys ∧
      (normalize table schema).report =
        { pruned := [["properties", "legacy"]], lossy := [[]], mapped := 3 } ∧
      normalize table (normalize table schema).schema =
        { schema := (normalize table schema).schema
          report := { pruned := [], lossy := [], mapped := 0 } } := by
  intro table schema
  have added : TagTable.builtin.add "outpoint" .text = .ok table := rfl
  have reachable : table.Reachable := TagTable.Reachable.builtin.add added
  have keys : schema.DistinctKeys := by
    simp [schema]
  exact ⟨reachable, keys, rfl, normalize_idempotent reachable keys⟩

end Bindery.Schema
