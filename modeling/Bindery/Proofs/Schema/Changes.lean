import Bindery.Proofs.Json.Revision
import Bindery.Proofs.Schema.Places

/-!
# What normalizing changes

A schema in normal form is a revision of the schema: the places that the report says are left out
are left out, so are the names of deprecated properties among the required ones, and the tags of the
table in a `type` are written as generic ones. Nothing else is changed.
-/

namespace Bindery.Schema
set_option autoImplicit false

open Json (DistinctKeys Pointer)

/-- The value of a node's `type`, or an item of such a list of tags, at any depth. -/
inductive IsTag (schema : Json) : Pointer → Prop
  | type {place : Pointer} {fields : List (String × Json)}
      (node : partAt? .node schema place = some (.node, .object fields)) :
      IsTag schema (place.child "type")
  | item {place : Pointer} {items : List Json} (tags : IsTag schema place)
      (list : schema.at? place = some (.array items)) (position : Nat) :
      IsTag schema (place.item position)

/-- A string in a node's list `required` that names a deprecated entry of the node's `properties`. -/
inductive IsStaleName (schema : Json) : Pointer → Prop
  | name {place : Pointer} {fields properties : List (String × Json)} {items : List Json}
      {position : Nat} {name : String} {property : Json}
      (node : partAt? .node schema place = some (.node, .object fields))
      (named : fields.lookup "properties" = some (.object properties))
      (required : fields.lookup "required" = some (.array items))
      (here : items[position]? = some (.string name))
      (entry : properties.lookup name = some property)
      (deprecated : isDeprecated property = true) :
      IsStaleName schema ((place.child "required").item position)

/-! ## What a value is used for -/

/-- What a value is used for by the node around it. -/
inductive Use where
  | plain
  /-- The tags of a node. -/
  | tags
  /-- The required names of a node, of which some are those of deprecated properties. -/
  | required (stale : List String)

/-- A value in normal form, finished for its use. -/
def Use.finish (table : TagTable) : Use → Json → Json
  | .plain, value => value
  | .tags, value => mapTags table value
  | .required stale, value => withoutNames stale value

/-- What an item of a list is used for. -/
def Use.ofItem : Use → Use
  | .tags => .tags
  | _ => .plain

/-- What a part of a value is used for. -/
def Use.ofPart : Use → Role → Json → String → Use
  | use, _, .array _, _ => use.ofItem
  | _, .node, .object fields, step =>
    if step = "required" then .required (deprecatedNames fields)
    else if step = "type" then .tags
    else .plain
  | _, _, _, _ => .plain

/-- At a place of a schema that stays, a value stands in a role and for a use. -/
structure Stands (schema : Json) (place : Pointer) (role : Role) (value : Json) (use : Use) :
    Prop where
  found : partAt? .node schema place = some (role, value)
  stays : ∀ above ∈ prunedIn [] .node schema, ¬above <+: place
  tags : IsTag schema place ↔ use = .tags
  required : ∀ stale, use = .required stale ↔ ∃ node fields, place = node.child "required" ∧
    partAt? .node schema node = some (.node, .object fields) ∧ stale = deprecatedNames fields

variable {table : TagTable} {schema value : Json} {place : Pointer} {role : Role} {use : Use}
  {part : Part} {step : String}

/-- A part is used for tags if it is the `type` of a node, or an item of tags. -/
theorem Use.ofPart_eq_tags (mem : part ∈ partsOf role value) :
    use.ofPart role value part.step = .tags ↔
      (role = .node ∧ (∃ fields, value = .object fields) ∧ part.step = "type") ∨
        (use = .tags ∧ ∃ items, value = .array items ∧
          ∃ position : Nat, part.step = toString position) := by
  cases value with
  | array items =>
    obtain ⟨item, -, rfl⟩ := List.mem_map.1 mem
    cases role <;> cases use <;> simp [Use.ofPart, Use.ofItem]
  | object fields =>
    cases role with
    | node =>
      unfold Use.ofPart
      by_cases required : part.step = "required"
      · simp [required]
      · by_cases type : part.step = "type" <;> simp [required, type]
    | map => simp [Use.ofPart]
  | _ => cases mem

/-- A part is used for required names if it is the `required` of a node. -/
theorem Use.ofPart_eq_required {stale : List String} (mem : part ∈ partsOf role value) :
    use.ofPart role value part.step = .required stale ↔ part.step = "required" ∧
      ∃ fields, role = .node ∧ value = .object fields ∧ stale = deprecatedNames fields := by
  cases value with
  | array items => cases role <;> cases use <;> simp [Use.ofPart, Use.ofItem]
  | object fields =>
    cases role with
    | node =>
      unfold Use.ofPart
      by_cases required : part.step = "required"
      · simp [required, eq_comm]
      · by_cases type : part.step = "type" <;> simp [required, type]
    | map => simp [Use.ofPart]
  | _ => cases mem

theorem child_inj {place other : Pointer} {step next : String}
    (same : place.child step = other.child next) : place = other ∧ step = next := by
  obtain ⟨places, steps⟩ := List.append_inj' same rfl
  exact ⟨places, List.singleton_inj.1 steps⟩

theorem nil_ne_child : ([] : Pointer) ≠ place.child step :=
  (List.append_ne_nil_of_right_ne_nil place (List.cons_ne_nil step [])).symm

theorem distinctKeys_partAt (keys : DistinctKeys value) {role' : Role} {value' : Json}
    (found : partAt? role value place = some (role', value')) : DistinctKeys value' := by
  induction place generalizing role value with
  | nil =>
    cases found
    exact keys
  | cons step place ih =>
    obtain ⟨part, first, here⟩ := Option.bind_eq_some_iff.1 found
    exact ih (distinctKeys_part keys (mem_of_part? first).1) here

theorem partAt?_child (keys : DistinctKeys schema)
    (found : partAt? .node schema place = some (role, value)) (mem : part ∈ partsOf role value) :
    partAt? .node schema (place.child part.step) = some (part.role, part.value) := by
  have first := part?_of_mem (distinctKeys_partAt keys found) mem
  rw [Pointer.child, partAt?_append, found, Option.bind_some, partAt?_cons first, partAt?]

/-- A part of a value that stays is left out exactly if the report says so. -/
theorem child_mem_prunedIn (keys : DistinctKeys schema)
    (found : partAt? .node schema place = some (role, value))
    (stays : ∀ above ∈ prunedIn [] .node schema, ¬above <+: place)
    (mem : part ∈ partsOf role value) :
    place.child part.step ∈ prunedIn [] .node schema ↔ part.isDropped = true := by
  have child := partAt?_child keys found mem
  rw [Part.isDropped, Bool.and_eq_true, decide_eq_true_eq]
  constructor
  · intro left
    obtain ⟨node, here, deprecated⟩ := deprecated_of_mem_prunedIn keys left
    rw [child] at here
    obtain ⟨isNode, same⟩ := Prod.mk.inj (Option.some.inj here)
    exact ⟨isNode, same ▸ deprecated⟩
  · rintro ⟨isNode, deprecated⟩
    rw [isNode] at child
    refine mem_prunedIn_of_deprecated keys child deprecated nil_ne_child.symm ?_
    intro above left isPrefix
    rcases List.prefix_concat_iff.1 isPrefix with same | before
    · exact same
    · exact absurd before (stays above left)

theorem isTag_child (found : partAt? .node schema place = some (role, value)) :
    IsTag schema (place.child step) ↔
      (role = .node ∧ (∃ fields, value = .object fields) ∧ step = "type") ∨
        (IsTag schema place ∧ ∃ items, value = .array items ∧
          ∃ position : Nat, step = toString position) := by
  constructor
  · intro tag
    generalize whole : place.child step = there at tag
    cases tag with
    | type node =>
      obtain ⟨rfl, rfl⟩ := child_inj whole
      rw [found] at node
      cases node
      exact Or.inl ⟨rfl, ⟨_, rfl⟩, rfl⟩
    | item tags list position =>
      obtain ⟨rfl, rfl⟩ := child_inj whole
      rw [at?_eq .node, found] at list
      cases list
      exact Or.inr ⟨tags, _, rfl, position, rfl⟩
  · rintro (⟨rfl, ⟨fields, rfl⟩, rfl⟩ | ⟨tags, items, rfl, position, rfl⟩)
    · exact .type found
    · exact tags.item (by rw [at?_eq .node, found]; rfl) position

theorem at?_child (value : Json) (place : Pointer) (step : String) :
    value.at? (place.child step) = (value.at? place).bind (·.step? step) := by
  unfold Json.at? Pointer.child
  rw [List.foldlM_append]
  refine Option.bind_congr fun inner _ => ?_
  simp

theorem lookup_of_partAt {fields : List (String × Json)}
    (node : partAt? .node schema place = some (.node, .object fields)) (key : String) :
    fields.lookup key = schema.at? (place.child key) := by
  rw [at?_child, at?_eq .node, node]
  rfl

theorem mem_deprecatedNames {fields : List (String × Json)} (keys : DistinctKeys (.object fields))
    {name : String} :
    name ∈ deprecatedNames fields ↔ ∃ properties property,
      fields.lookup "properties" = some (.object properties) ∧
        properties.lookup name = some property ∧ isDeprecated property = true := by
  unfold deprecatedNames
  split
  · next properties found =>
    have distinct : (properties.map (·.1)).Nodup :=
      (Json.distinctKeys_object.1 ((Json.distinctKeys_object.1 keys).2 _ (mem_of_lookup found))).1
    constructor
    · intro mem
      obtain ⟨⟨_, property⟩, there, rfl⟩ := List.mem_map.1 mem
      obtain ⟨there, deprecated⟩ := List.mem_filter.1 there
      exact ⟨properties, property, found, lookup_of_mem distinct there, deprecated⟩
    · rintro ⟨_, property, same, entry, deprecated⟩
      rw [found] at same
      cases same
      exact List.mem_map.2 ⟨(name, property),
        List.mem_filter.2 ⟨mem_of_lookup entry, deprecated⟩, rfl⟩
  · next other =>
    constructor
    · nofun
    · rintro ⟨properties, _, found, -⟩
      exact absurd found (other properties)

namespace Stands

/-- The schema itself stands for no particular use. -/
theorem root (schema : Json) : Stands schema [] .node schema .plain where
  found := rfl
  stays := by
    intro above left isPrefix
    exact nil_not_mem_prunedIn (List.prefix_nil.1 isPrefix ▸ left)
  tags := by
    refine ⟨fun tag => ?_, nofun⟩
    generalize whole : ([] : Pointer) = there at tag
    cases tag with
    | type _ => exact absurd whole nil_ne_child
    | item _ _ _ => exact absurd whole nil_ne_child
  required := by
    refine fun stale => ⟨nofun, ?_⟩
    rintro ⟨node, fields, whole, -⟩
    exact absurd whole nil_ne_child

/-- A part that stays stands for its own use. -/
theorem inside (h : Stands schema place role value use) (keys : DistinctKeys schema)
    (mem : part ∈ partsOf role value) (kept : part.isDropped = false) :
    Stands schema (place.child part.step) part.role part.value
      (use.ofPart role value part.step) where
  found := partAt?_child keys h.found mem
  stays := by
    intro above left isPrefix
    rcases List.prefix_concat_iff.1 isPrefix with same | before
    · rw [same] at left
      have dropped := (child_mem_prunedIn keys h.found h.stays mem).1 left
      rw [kept] at dropped
      cases dropped
    · exact h.stays above left before
  tags := by
    rw [isTag_child h.found, h.tags]
    exact (Use.ofPart_eq_tags mem).symm
  required := by
    intro stale
    have here : (∃ node fields, place.child part.step = node.child "required" ∧
        partAt? .node schema node = some (.node, .object fields) ∧ stale = deprecatedNames fields) ↔
        part.step = "required" ∧
          ∃ fields, role = .node ∧ value = .object fields ∧ stale = deprecatedNames fields := by
      constructor
      · rintro ⟨node, fields, whole, found, same⟩
        obtain ⟨rfl, step⟩ := child_inj whole
        rw [h.found] at found
        cases found
        exact ⟨step, fields, rfl, rfl, same⟩
      · rintro ⟨step, fields, rfl, rfl, same⟩
        exact ⟨place, fields, by rw [step], h.found, same⟩
    rw [here]
    exact Use.ofPart_eq_required mem

/-- Inside a list of required names, the stale ones are those of deprecated properties. -/
theorem isStaleName_child (h : Stands schema place role value use) (keys : DistinctKeys schema) :
    IsStaleName schema (place.child step) ↔ ∃ stale items, ∃ position : Nat, ∃ name,
      use = .required stale ∧ value = .array items ∧ step = toString position ∧
        items[position]? = some (.string name) ∧ name ∈ stale := by
  have standing : (partAt? .node schema place).map (·.2) = some value := by rw [h.found]; rfl
  rw [← at?_eq] at standing
  constructor
  · intro isStale
    generalize whole : place.child step = there at isStale
    cases isStale with
    | @name node fields properties items position name property found named required here entry
        deprecated =>
      obtain ⟨rfl, rfl⟩ := child_inj whole
      rw [lookup_of_partAt found, standing] at required
      cases required
      refine ⟨_, items, position, name, (h.required _).2 ⟨node, fields, rfl, found, rfl⟩, rfl, rfl,
        here, ?_⟩
      exact (mem_deprecatedNames (distinctKeys_partAt keys found)).2
        ⟨properties, property, named, entry, deprecated⟩
  · rintro ⟨stale, items, position, name, used, rfl, rfl, here, mem⟩
    obtain ⟨node, fields, rfl, found, rfl⟩ := (h.required stale).1 used
    obtain ⟨properties, property, named, entry, deprecated⟩ :=
      (mem_deprecatedNames (distinctKeys_partAt keys found)).1 mem
    exact .name found named (by rw [lookup_of_partAt found, standing]) here entry deprecated

end Stands

/-! ## The normal form as a revision -/

section Revision

/-- Places are compared as lists of steps, and that is what tells whether one is among others. -/
local instance lawfulBEq_pointer : LawfulBEq Pointer :=
  inferInstance

open scoped Classical in
/-- The revision of a schema that its report describes. -/
noncomputable def reported (table : TagTable) (schema : Json) (place : Pointer) : Json → Json :=
  Json.revised
    (fun place => place ∈ (normalize table schema).report.pruned ∨ IsStaleName schema place)
    (fun place tag => if IsTag schema place then genericTag table tag else tag)
    place

/-- Whether a value is a string that names something in a list. -/
def isNamed (names : List String) : Json → Bool
  | .string name => name ∈ names
  | _ => false

/-- The stale names among the values that a list of some use holds. -/
def Use.stale : Use → List String
  | .required stale => stale
  | _ => []

theorem withoutNames_array (names : List String) (items : List Json) :
    withoutNames names (.array items) = .array (items.filter (!isNamed names ·)) := by
  rw [withoutNames]
  congr 1
  refine List.filter_congr fun item _ => ?_
  cases item <;> simp [isNamed]

theorem isNamed_normalNode (names : List String) (value : Json) :
    isNamed names (normalNode table value) = isNamed names value := by
  cases value <;> rfl

theorem map_filter_normalItems (names : List String) (f : Json → Json) (items : List Json) :
    ((normalItems table items).filter (!isNamed names ·)).map f = items.filterMap fun item =>
      if isDeprecated item || isNamed names item then none
      else some (f (normalNode table item)) := by
  rw [normalItems_eq, List.filter_map, List.filter_filter, List.map_map, ← List.filterMap_eq_map,
    List.filterMap_filter]
  refine List.filterMap_congr fun item _ => ?_
  simp only [Function.comp_apply, isNamed_normalNode]
  cases isDeprecated item <;> cases isNamed names item <;> rfl

/-- A list in normal form, finished for its use: without deprecated items and stale names, and with
each other item finished for its own use. -/
theorem finish_items (use : Use) (items : List Json) :
    use.finish table (.array (normalItems table items)) =
      .array (items.filterMap fun item =>
        if isDeprecated item || isNamed use.stale item then none
        else some (use.ofItem.finish table (normalNode table item))) := by
  rw [← map_filter_normalItems]
  have all : (normalItems table items).filter (!isNamed [] ·) = normalItems table items := by
    refine List.filter_eq_self.2 fun item _ => ?_
    cases item <;> simp [isNamed]
  have plain : Use.finish table .plain = id := rfl
  cases use with
  | plain => simp [Use.ofItem, Use.stale, all, plain]
  | tags => simp [Use.finish, Use.ofItem, Use.stale, all, mapTags, mapTagItems_eq]
  | required stale =>
    rw [Use.finish, withoutNames_array, Use.ofItem, plain, List.map_id, Use.stale]
    · intro other
      cases other

/-- An object in normal form: the parts that stay, each finished for its use. -/
theorem normalIn_object (use : Use) (role : Role) (fields : List (String × Json)) :
    normalIn table role (.object fields) =
      .object ((partsOf role (.object fields)).filterMap fun part =>
        if part.isDropped then none
        else some (part.step, (use.ofPart role (.object fields) part.step).finish table
          (normalIn table part.role part.value))) := by
  cases role with
  | map =>
    rw [normalIn, normalMap, normalEntries_eq, partsOf, List.filterMap_map, ← List.filterMap_eq_map,
      List.filterMap_filter]
    congr 1
    refine List.filterMap_congr fun entry _ => ?_
    cases mark : isDeprecated entry.2 <;> simp [Part.isDropped, mark, Use.ofPart, Use.finish, normalIn]
  | node =>
    rw [normalIn, normalNode_object, normalFields_eq, List.map_map, partsOf, List.filterMap_map,
      ← List.filterMap_eq_map, List.filterMap_filter]
    congr 1
    refine List.filterMap_congr fun field _ => ?_
    have dropped : (⟨field.1, roleOf field.1, field.2⟩ : Part).isDropped = !staysField field := by
      cases named : isSchemaMap field.1 <;> simp [Part.isDropped, staysField, roleOf, named]
    simp only [Function.comp_apply, dropped]
    cases staysField field with
    | false => rfl
    | true =>
      simp only [normalField, Use.ofPart]
      by_cases required : field.1 = "required"
      · simp [required, Use.finish]
      · by_cases type : field.1 = "type" <;> simp [required, type, Use.finish]

theorem finish_object (use : Use) (fields : List (String × Json)) :
    use.finish table (.object fields) = .object fields := by
  cases use <;> rfl

/-- An item is gone if it is deprecated, or a stale name. -/
theorem gone_item {items : List Json} {item : Json} {position : Nat}
    (h : Stands schema place role (.array items) use) (keys : DistinctKeys schema)
    (here : (item, position) ∈ items.zipIdx) :
    (place.item position ∈ prunedIn [] .node schema ∨ IsStaleName schema (place.item position)) ↔
      (isDeprecated item || isNamed use.stale item) = true := by
  have found : items[position]? = some item := List.mem_zipIdx_iff_getElem?.1 here
  have mem : (⟨toString position, .node, item⟩ : Part) ∈ partsOf role (.array items) :=
    List.mem_map.2 ⟨(item, position), here, rfl⟩
  rw [Bool.or_eq_true]
  refine or_congr ?_ ?_
  · exact (child_mem_prunedIn keys h.found h.stays mem).trans (by simp [Part.isDropped])
  · refine (h.isStaleName_child keys).trans ?_
    constructor
    · rintro ⟨stale, _, place, name, rfl, same, step, there, listed⟩
      cases same
      rw [← toString_injective step, found] at there
      cases there
      exact decide_eq_true listed
    · intro named
      cases item with
      | string name =>
        cases use with
        | required stale =>
          exact ⟨stale, items, position, name, rfl, rfl, rfl, found, of_decide_eq_true named⟩
        | _ => simp [isNamed, Use.stale] at named
      | _ => cases named

/-- A field is gone if it does not stay. -/
theorem gone_field {fields : List (String × Json)}
    (h : Stands schema place role (.object fields) use) (keys : DistinctKeys schema)
    (mem : part ∈ partsOf role (.object fields)) :
    (place.child part.step ∈ prunedIn [] .node schema ∨
      IsStaleName schema (place.child part.step)) ↔ part.isDropped = true := by
  rw [child_mem_prunedIn keys h.found h.stays mem, h.isStaleName_child keys]
  simp

/-- **A value that stays is revised to its normal form**, finished for its use. -/
theorem reported_eq (keys : DistinctKeys schema) (h : Stands schema place role value use) :
    reported table schema place value = use.finish table (normalIn table role value) := by
  induction role, value using inductParts generalizing place use with
  | whole role value ih =>
    have inside : ∀ part ∈ partsOf role value, part.isDropped = false →
        reported table schema (place.child part.step) part.value =
          (use.ofPart role value part.step).finish table (normalIn table part.role part.value) :=
      fun part mem kept => ih part mem (h.inside keys mem kept)
    unfold reported at inside ⊢
    cases value with
    | array items =>
      rw [normalIn_array, finish_items, Json.revised, Json.revisedItems_eq]
      congr 1
      conv_rhs => rw [← List.zipIdx_map_fst 0 items, List.filterMap_map]
      refine List.filterMap_congr fun item mem => ?_
      rw [Function.comp_apply]
      refine ite_congr (propext (gone_item h keys mem)) (fun _ => rfl) fun kept => ?_
      rw [Bool.or_eq_true, not_or, Bool.not_eq_true] at kept
      have part := inside ⟨toString item.2, .node, item.1⟩ (List.mem_map.2 ⟨item, mem, rfl⟩)
        (by simp [Part.isDropped, kept.1])
      rw [Pointer.item, part]
      cases role <;> rfl
    | object fields =>
      have parts : ∀ f : String × Json → Option (String × Json),
          fields.filterMap f =
            (partsOf role (.object fields)).filterMap fun part => f (part.step, part.value) := by
        intro f
        cases role <;> rw [partsOf, List.filterMap_map] <;> rfl
      rw [normalIn_object use, finish_object, Json.revised, Json.revisedFields_eq, parts]
      congr 1
      refine List.filterMap_congr fun part mem => ?_
      refine ite_congr (propext (gone_field h keys mem)) (fun _ => rfl) fun kept => ?_
      rw [inside part mem (Bool.not_eq_true _ ▸ kept)]
    | string tag =>
      have normal : normalIn table role (.string tag) = .string tag := by cases role <;> rfl
      rw [normal, Json.revised]
      cases use with
      | tags => rw [if_pos (h.tags.2 rfl), Use.finish, mapTags]
      | plain =>
        have plain : ¬IsTag schema place := fun tag => by cases h.tags.1 tag
        rw [if_neg plain, Use.finish]
      | required stale =>
        have plain : ¬IsTag schema place := fun tag => by cases h.tags.1 tag
        rw [if_neg plain, Use.finish, withoutNames]
        · intro items other
          cases other
    | _ => cases role <;> cases use <;> rfl

end Revision

end Bindery.Schema
