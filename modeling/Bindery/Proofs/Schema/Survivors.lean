import Bindery.Proofs.Schema.Changes

/-!
# Where the parts of a schema go

What stays of a schema stands in its normal form under the same keys. Only the items of an array
move: they close up over those that are left out. So each place that stays has a new place, and there
the value stands in its own normal form.
-/

namespace Bindery.Schema
set_option autoImplicit false

open Json (DistinctKeys Pointer)

/-- Whether a part stays of a value that has a use. -/
def Use.keeps (use : Use) (part : Part) : Bool :=
  !(part.isDropped || isNamed use.stale part.value)

/-- The step to a part in normal form: of an item its position among the items that stay. -/
def Use.newStep (use : Use) (role : Role) (value : Json) (step : String) : String :=
  match value with
  | .array _ => toString ((((partsOf role value).filter use.keeps).map (·.step)).idxOf step)
  | _ => step

/-- The place in normal form of a place inside a value. -/
def newPlace (use : Use) (role : Role) (value : Json) : Pointer → Pointer
  | [] => []
  | step :: place =>
    use.newStep role value step ::
      match part? role value step with
      | some part => newPlace (use.ofPart role value step) part.role part.value place
      | none => place

/-- The place in normal form of a place of a schema. -/
def normalPlace (schema : Json) (place : Pointer) : Pointer :=
  newPlace .plain .node schema place

variable {table : TagTable} {schema value : Json} {place : Pointer} {role : Role} {use : Use}
  {part : Part}

/-! ## One step -/

/-- A value that holds an object inside is no string, so it is no name in a list. -/
theorem not_isNamed {role' : Role} {fields : List (String × Json)}
    (inside : partAt? role value place = some (role', .object fields)) (names : List String) :
    isNamed names value = false := by
  cases value with
  | string s => cases place <;> cases role <;> cases inside
  | _ => rfl

/-- Among parts that are told apart by their steps, each is at the position of its step. -/
theorem getElem?_idxOf_step {parts : List Part} (distinct : (parts.map (·.step)).Nodup)
    (mem : part ∈ parts) : parts[(parts.map (·.step)).idxOf part.step]? = some part := by
  have here := List.getElem?_idxOf (List.mem_map_of_mem mem : part.step ∈ parts.map (·.step))
  rw [List.getElem?_map] at here
  obtain ⟨other, there, same⟩ := Option.map_eq_some_iff.1 here
  rw [there, List.inj_on_of_nodup_map distinct (List.mem_of_getElem? there) mem same]

/-- A list in normal form, finished for its use, by the parts that stay. -/
theorem finish_items_eq (use : Use) (role : Role) (items : List Json) :
    use.finish table (normalIn table role (.array items)) =
      .array (((partsOf role (.array items)).filter use.keeps).map fun part =>
        (use.ofPart role (.array items) part.step).finish table
          (normalIn table part.role part.value)) := by
  rw [normalIn_array, finish_items, partsOf, List.filter_map, List.map_map, ← List.filterMap_eq_map,
    List.filterMap_filter]
  congr 1
  conv_lhs => rw [← List.zipIdx_map_fst 0 items, List.filterMap_map]
  refine List.filterMap_congr fun item _ => ?_
  have ofPart : use.ofPart role (.array items) (toString item.2) = use.ofItem := by
    cases role <;> rfl
  simp only [Function.comp_apply, Use.keeps, Part.isDropped, decide_true, Bool.true_and, ofPart,
    normalIn]
  cases isDeprecated item.1 || isNamed use.stale item.1 <;> rfl

/-- An object in normal form, finished for its use, by the parts that stay. -/
theorem finish_fields_eq (use : Use) (role : Role) (fields : List (String × Json)) :
    use.finish table (normalIn table role (.object fields)) =
      .object (((partsOf role (.object fields)).filter (!·.isDropped)).map fun part =>
        (part.step, (use.ofPart role (.object fields) part.step).finish table
          (normalIn table part.role part.value))) := by
  rw [normalIn_object use, finish_object, ← List.filterMap_eq_map, List.filterMap_filter]
  congr 1
  refine List.filterMap_congr fun part _ => ?_
  cases part.isDropped <;> rfl

/-- The steps to some of the parts of a value are distinct. -/
theorem nodup_some_steps (keys : DistinctKeys value) (role : Role) (stays : Part → Bool) :
    (((partsOf role value).filter stays).map (·.step)).Nodup :=
  (nodup_steps role keys).sublist (List.filter_sublist.map _)

theorem nodup_finished_keys {fields : List (String × Json)} (keys : DistinctKeys (.object fields))
    (role : Role) (stays : Part → Bool) (finished : Part → Json) :
    ((((partsOf role (.object fields)).filter stays).map fun part =>
      (part.step, finished part)).map (·.1)).Nodup := by
  rw [List.map_map]
  exact nodup_some_steps keys role stays

/-- A part that stays stands one step inside the normal form, finished for its own use. -/
theorem step?_newStep (table : TagTable) (keys : DistinctKeys value)
    (mem : part ∈ partsOf role value) (kept : part.isDropped = false) (unnamed : isNamed use.stale part.value = false) :
    (use.finish table (normalIn table role value)).step? (use.newStep role value part.step) =
      some ((use.ofPart role value part.step).finish table
        (normalIn table part.role part.value)) := by
  cases value with
  | array items =>
    have stays : part ∈ (partsOf role (.array items)).filter use.keeps :=
      List.mem_filter.2 ⟨mem, by simp [Use.keeps, kept, unnamed]⟩
    rw [finish_items_eq, Use.newStep, step?_item, List.getElem?_map,
      getElem?_idxOf_step (nodup_some_steps keys role use.keeps) stays, Option.map_some]
  | object fields =>
    rw [finish_fields_eq, Use.newStep]
    · exact lookup_of_mem (nodup_finished_keys keys role _ _)
        (List.mem_map.2 ⟨part, List.mem_filter.2 ⟨mem, by simp [kept]⟩, rfl⟩)
    · nofun
  | _ => cases mem

/-- A normal form has distinct keys. -/
theorem distinctKeys_finish (use : Use) (role : Role) (keys : DistinctKeys value) :
    DistinctKeys (use.finish table (normalIn table role value)) := by
  induction role, value using inductParts generalizing use with
  | whole role value ih =>
    have each : ∀ part ∈ partsOf role value, DistinctKeys
        ((use.ofPart role value part.step).finish table (normalIn table part.role part.value)) :=
      fun part mem => ih part mem _ (distinctKeys_part keys mem)
    cases value with
    | array items =>
      rw [finish_items_eq, Json.distinctKeys_array]
      intro item mem
      obtain ⟨part, there, rfl⟩ := List.mem_map.1 mem
      exact each part (List.mem_filter.1 there).1
    | object fields =>
      rw [finish_fields_eq, Json.distinctKeys_object]
      refine ⟨nodup_finished_keys keys role _ _, fun field mem => ?_⟩
      obtain ⟨part, there, rfl⟩ := List.mem_map.1 mem
      exact each part (List.mem_filter.1 there).1
    | null => cases role <;> cases use <;> exact .null
    | bool b => cases role <;> cases use <;> exact .bool b
    | number n => cases role <;> cases use <;> exact .number n
    | string s => cases role <;> cases use <;> exact .string _

theorem distinctKeys_normalNode (keys : DistinctKeys value) :
    DistinctKeys (normalNode table value) :=
  distinctKeys_finish .plain .node keys

/-! ## Any number of steps -/

/-- **An object that stays stands at its new place**, in the normal form of its role. -/
theorem at?_newPlace (use : Use) (keys : DistinctKeys value) {role' : Role}
    {fields : List (String × Json)}
    (found : partAt? role value place = some (role', .object fields))
    (stays : ∀ above ∈ prunedIn [] role value, ¬above <+: place) :
    (use.finish table (normalIn table role value)).at? (newPlace use role value place) =
      some (normalIn table role' (.object fields)) := by
  induction place generalizing use role value with
  | nil =>
    cases found
    have done : ∀ inner : List (String × Json), use.finish table (.object inner) = .object inner :=
      finish_object use
    cases role' <;> exact congrArg some (done _)
  | cons step place ih =>
    obtain ⟨part, first, here⟩ := Option.bind_eq_some_iff.1 found
    obtain ⟨there, rfl⟩ := mem_of_part? first
    -- the part stays and is no stale name, so the first step leads to it, and the rest into it
    obtain ⟨kept, stays⟩ := stays_part keys there stays
    have next := step?_newStep table keys there kept (not_isNamed here use.stale)
    rw [newPlace, first]
    calc (use.finish table (normalIn table role value)).at?
          (use.newStep role value part.step ::
            newPlace (use.ofPart role value part.step) part.role part.value place)
        = ((use.finish table (normalIn table role value)).step?
            (use.newStep role value part.step)).bind
            (·.at? (newPlace (use.ofPart role value part.step) part.role part.value place)) := rfl
      _ = some (normalIn table role' (.object fields)) := by
          rw [next, Option.bind_some, ih _ (distinctKeys_part keys there) here stays]

/-- A node that stays of a schema stands in its normal form as its own normal form. -/
theorem at?_normalPlace (table : TagTable) (keys : DistinctKeys schema)
    {fields : List (String × Json)}
    (node : partAt? .node schema place = some (.node, .object fields))
    (stays : ∀ above ∈ (normalize table schema).report.pruned, ¬above <+: place) :
    (normalize table schema).schema.at? (normalPlace schema place) =
      some (normalNode table (.object fields)) :=
  at?_newPlace .plain keys node stays

/-! ## Maps from names to schemas -/

/-- Entries under other names. -/
def renamed (rename : String → String) (entries : List (String × Json)) : List (String × Json) :=
  entries.map fun entry => (rename entry.1, entry.2)

/-- Entries under other names have the same normal forms, under the other names. -/
theorem normalEntries_renamed (table : TagTable) (rename : String → String)
    (entries : List (String × Json)) :
    normalEntries table (renamed rename entries) = renamed rename (normalEntries table entries) := by
  simp [renamed, normalEntries_eq, List.filter_map, Function.comp_def]

/-- **Maps from names to schemas are opaque to keywords.** Wherever a node stays, each of its maps
keeps in order the entries that are not deprecated, each under its name and with the normal form that
its schema has alone. No name has a part in this: under any other names the entries fare alike. -/
theorem name_maps_opaque (table : TagTable) {schema : Json} (keys : schema.DistinctKeys)
    {place : Pointer} {fields : List (String × Json)}
    (node : partAt? .node schema place = some (.node, .object fields))
    (stays : ∀ above ∈ (normalize table schema).report.pruned, ¬above <+: place) :
    ∃ fields', (normalize table schema).schema.at? (normalPlace schema place) =
        some (.object fields') ∧
      ∀ key entries, isSchemaMap key = true → fields.lookup key = some (.object entries) →
        ∃ kept, fields'.lookup key = some (.object kept) ∧
          kept = (entries.filter fun entry => !isDeprecated entry.2).map
            (fun entry => (entry.1, (normalize table entry.2).schema)) ∧
          ∀ rename : String → String,
            normalMap table (.object (renamed rename entries)) = .object (renamed rename kept) := by
  have normal := normalNode_object table fields
  refine ⟨_, (at?_normalPlace table keys node stays).trans (congrArg some normal), ?_⟩
  intro key entries map found
  have distinct := (Json.distinctKeys_object.1 (distinctKeys_partAt keys node)).1
  refine ⟨normalEntries table entries, ?_, normalEntries_eq table entries, fun rename => ?_⟩
  · rw [lookup_stays_map normal distinct map, found, Option.map_some, normalMap]
  · rw [normalMap, normalEntries_renamed]

/-- A map with keywords as names, in an item that has moved up. The map under its name `properties`
is a schema. -/
theorem name_maps_opaque_keywords :
    let txid : Json := .object [("type", .string "txid")]
    let text : Json := .object [("type", .string "string")]
    let old : Json := .object [("deprecated", .bool true)]
    let entries : List (String × Json) :=
      [("type", txid), ("required", .array [.string "$defs", old]), ("$defs", old),
        ("deprecated", txid), ("properties", .object [("type", .string "hex"), ("items", old)])]
    let item : List (String × Json) :=
      [("required", .array [.string "$defs", .string "type"]), ("properties", .object entries)]
    let schema : Json := .object [("oneOf", .array [old, .object item])]
    let output := (normalize .builtin schema).schema
    schema.DistinctKeys ∧
      partAt? .node schema ["oneOf", "1"] = some (.node, .object item) ∧
      (∀ above ∈ (normalize .builtin schema).report.pruned, ¬above <+: ["oneOf", "1"]) ∧
      normalPlace schema ["oneOf", "1"] = ["oneOf", "0"] ∧
      ∃ fields', output.at? ["oneOf", "0"] = some (.object fields') ∧
        fields'.lookup "properties" = some (.object
          [("type", text), ("required", .array [.string "$defs"]), ("deprecated", text),
            ("properties", text)]) := by
  intro txid text old entries item schema output
  have keys : schema.DistinctKeys := by
    simp [schema, item, entries, old, txid]
  have node : partAt? .node schema ["oneOf", "1"] = some (.node, .object item) := by
    with_unfolding_all rfl
  have stays : ∀ above ∈ (normalize .builtin schema).report.pruned, ¬above <+: ["oneOf", "1"] := by
    decide
  have moved : normalPlace schema ["oneOf", "1"] = ["oneOf", "0"] := by decide
  obtain ⟨fields', there, maps⟩ := name_maps_opaque .builtin keys node stays
  obtain ⟨kept, found, same, -⟩ := maps "properties" entries (by decide) rfl
  refine ⟨keys, node, stays, moved, fields', moved ▸ there, ?_⟩
  rw [found, same]
  rfl

end Bindery.Schema
