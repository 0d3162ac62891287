import Bindery.Proofs.Json.PointerText
import Bindery.Proofs.Schema.Parts
import Mathlib.Data.List.Count

/-!
# Places in a report

The places that a report says are left out are those of the deprecated nodes with nothing deprecated
around them, and none of them lies inside another. The places of lossy tags are those of the nodes
that stay, each as often as its `type` has such a tag.

All is said of a value in either role, with the places as seen from that value. What a report says
of a value is then what it says of the value's parts, with the part's step in front.
-/

namespace Bindery.Schema
set_option autoImplicit false

open Json (DistinctKeys Pointer)

variable {table : TagTable} {role : Role} {value : Json} {part : Part} {step : String}
  {place : Pointer}

/-! ## Reports on parts -/

theorem prunedIn_eq (place : Pointer) (role : Role) (value : Json) :
    prunedIn place role value = (partsOf role value).flatMap fun part =>
      if part.isDropped then [place.child part.step]
      else prunedIn (place.child part.step) part.role part.value := by
  cases value with
  | array items =>
    have each : prunedItems place 0 items = (partsOf role (.array items)).flatMap fun part =>
        if part.isDropped then [place.child part.step]
        else prunedIn (place.child part.step) part.role part.value := by
      rw [prunedItems_eq, partsOf, List.flatMap_map]
      rfl
    cases role <;> exact each
  | object fields =>
    cases role with
    | node =>
      rw [prunedIn, prunedNode, prunedFields_eq, partsOf, List.flatMap_map]
      refine List.flatMap_congr fun field _ => ?_
      cases named : isSchemaMap field.1 <;> cases mark : isDeprecated field.2 <;>
        simp [Part.isDropped, staysField, roleOf, named, mark]
    | map =>
      rw [prunedIn, prunedMap, prunedEntries_eq, partsOf, List.flatMap_map]
      rfl
  | _ => cases role <;> rfl

/-- The tags that are mapped in a value itself. -/
def tagsIn (table : TagTable) : Role → Json → List Mapping
  | .node, .object fields => ownTags table fields
  | _, _ => []

theorem mappedIn_eq (table : TagTable) (place : Pointer) (role : Role) (value : Json) :
    mappedIn table place role value =
      ((partsOf role value).flatMap fun part =>
        if part.isDropped then []
        else mappedIn table (place.child part.step) part.role part.value) ++
      (tagsIn table role value).map (place, ·) := by
  cases value with
  | array items =>
    have none : tagsIn table role (.array items) = [] := by cases role <;> rfl
    have each : mappedItems table place 0 items =
        (partsOf role (.array items)).flatMap fun part =>
          if part.isDropped then []
          else mappedIn table (place.child part.step) part.role part.value := by
      rw [mappedItems_eq, partsOf, List.flatMap_map]
      rfl
    rw [none, List.map_nil, List.append_nil]
    cases role <;> exact each
  | object fields =>
    cases role with
    | node =>
      rw [mappedIn, mappedNode, mappedFields_eq, partsOf, List.flatMap_map]
      congr 1
      refine List.flatMap_congr fun field _ => ?_
      cases named : isSchemaMap field.1 <;> cases mark : isDeprecated field.2 <;>
        simp [Part.isDropped, staysField, roleOf, named, mark]
    | map =>
      have none : tagsIn table .map (.object fields) = [] := rfl
      rw [mappedIn, mappedInMap, mappedEntries_eq, partsOf, List.flatMap_map, none, List.map_nil,
        List.append_nil]
      rfl
  | _ => cases role <;> rfl

theorem prunedIn_append (front place : Pointer) (role : Role) (value : Json) :
    prunedIn (front ++ place) role value = (prunedIn place role value).map (front ++ ·) := by
  induction role, value using inductParts generalizing place with
  | whole role value ih =>
    rw [prunedIn_eq, prunedIn_eq, List.map_flatMap]
    refine List.flatMap_congr fun part mem => ?_
    have child : Pointer.child (front ++ place) part.step = front ++ place.child part.step :=
      List.append_assoc ..
    rw [child]
    split
    · rfl
    · exact ih part mem _

theorem mappedIn_append (table : TagTable) (front place : Pointer) (role : Role) (value : Json) :
    mappedIn table (front ++ place) role value =
      (mappedIn table place role value).map fun tag => (front ++ tag.1, tag.2) := by
  induction role, value using inductParts generalizing place with
  | whole role value ih =>
    rw [mappedIn_eq, mappedIn_eq, List.map_append, List.map_flatMap, List.map_map]
    congr 1
    refine List.flatMap_congr fun part mem => ?_
    have child : Pointer.child (front ++ place) part.step = front ++ place.child part.step :=
      List.append_assoc ..
    rw [child]
    split
    · rfl
    · exact ih part mem _

/-! ## Places left out -/

/-- The places left out of a value are those of the parts that are left out, and the places left out
of the others. -/
theorem prunedIn_parts (role : Role) (value : Json) :
    prunedIn [] role value = (partsOf role value).flatMap fun part =>
      if part.isDropped then [[part.step]]
      else (prunedIn [] part.role part.value).map (part.step :: ·) := by
  rw [prunedIn_eq]
  refine List.flatMap_congr fun part _ => ?_
  split
  · rfl
  · exact prunedIn_append [part.step] [] part.role part.value

theorem mem_prunedIn :
    place ∈ prunedIn [] role value ↔ ∃ part ∈ partsOf role value,
      (part.isDropped = true ∧ place = [part.step]) ∨
        (part.isDropped = false ∧ ∃ rest ∈ prunedIn [] part.role part.value,
          place = part.step :: rest) := by
  rw [prunedIn_parts, List.mem_flatMap]
  refine exists_congr fun part => and_congr_right fun _ => ?_
  cases part.isDropped
  · simp [eq_comm]
  · simp

theorem nil_not_mem_prunedIn : [] ∉ prunedIn [] role value := by
  intro mem
  obtain ⟨part, -, ⟨-, same⟩ | ⟨-, rest, -, same⟩⟩ := mem_prunedIn.1 mem
  · cases same
  · cases same

/-- Inside a part, what is left out of the whole is what is left out of the part. -/
theorem cons_mem_prunedIn (keys : DistinctKeys value) (mem : part ∈ partsOf role value) :
    part.step :: place ∈ prunedIn [] role value ↔
      if part.isDropped then place = [] else place ∈ prunedIn [] part.role part.value := by
  have only : ∀ other ∈ partsOf role value, other.step = part.step → other = part :=
    fun other there same => List.inj_on_of_nodup_map (nodup_steps role keys) there mem same
  rw [mem_prunedIn]
  constructor
  · rintro ⟨other, there, ⟨dropped, same⟩ | ⟨kept, rest, inside, same⟩⟩
    · obtain ⟨step, rfl⟩ := List.cons.inj same
      rw [only other there step.symm] at dropped
      rw [if_pos dropped]
    · obtain ⟨step, rfl⟩ := List.cons.inj same
      rw [only other there step.symm] at kept inside
      rw [if_neg (by simp [kept])]
      exact inside
  · intro left
    split at left
    · next dropped => exact ⟨part, mem, Or.inl ⟨dropped, by rw [left]⟩⟩
    · next kept => exact ⟨part, mem, Or.inr ⟨by simpa using kept, place, left, rfl⟩⟩

/-- Neither of two places is the other or inside it. -/
def Apart (place other : Pointer) : Prop :=
  ¬place <+: other ∧ ¬other <+: place

theorem pairwise_prunedIn (keys : DistinctKeys value) :
    (prunedIn [] role value).Pairwise Apart := by
  induction role, value using inductParts with
  | whole role value ih =>
    rw [prunedIn_parts, List.pairwise_flatMap]
    constructor
    · intro part mem
      split
      · exact List.pairwise_singleton _ _
      · rw [List.pairwise_map]
        refine (ih part mem (distinctKeys_part keys mem)).imp fun {p q} apart => ?_
        exact ⟨fun above => apart.1 (List.cons_prefix_cons.1 above).2,
          fun above => apart.2 (List.cons_prefix_cons.1 above).2⟩
    · -- places in different parts differ in their first step
      have steps := List.pairwise_map.1 (nodup_steps role keys)
      refine steps.imp fun {a b} differ p inA q inB => ?_
      have first : ∀ (part : Part) (p : Pointer),
          (p ∈ if part.isDropped then [[part.step]]
            else (prunedIn [] part.role part.value).map (part.step :: ·)) →
          ∃ rest, p = part.step :: rest := by
        intro part p mem
        split at mem
        · exact ⟨[], List.mem_singleton.1 mem⟩
        · obtain ⟨rest, -, rfl⟩ := List.mem_map.1 mem
          exact ⟨rest, rfl⟩
      obtain ⟨p, rfl⟩ := first a p inA
      obtain ⟨q, rfl⟩ := first b q inB
      exact ⟨fun above => differ (List.cons_prefix_cons.1 above).1,
        fun above => differ (List.cons_prefix_cons.1 above).1.symm⟩

/-- Where something is left out, a deprecated node stands. -/
theorem deprecated_of_mem_prunedIn (keys : DistinctKeys value)
    (mem : place ∈ prunedIn [] role value) :
    ∃ node, partAt? role value place = some (.node, node) ∧ isDeprecated node = true := by
  induction place generalizing role value with
  | nil => exact absurd mem nil_not_mem_prunedIn
  | cons step place ih =>
    obtain ⟨part, there, ⟨dropped, same⟩ | ⟨-, rest, inside, same⟩⟩ := mem_prunedIn.1 mem
    · cases same
      simp only [Part.isDropped, Bool.and_eq_true, decide_eq_true_eq] at dropped
      refine ⟨part.value, ?_, dropped.2⟩
      rw [partAt?_cons (part?_of_mem keys there), partAt?, dropped.1]
    · cases same
      obtain ⟨node, found, deprecated⟩ := ih (distinctKeys_part keys there) inside
      exact ⟨node, by rw [partAt?_cons (part?_of_mem keys there), found], deprecated⟩

/-- A deprecated node inside a value is left out, unless something around it is. -/
theorem mem_prunedIn_of_deprecated (keys : DistinctKeys value) {node : Json}
    (found : partAt? role value place = some (.node, node)) (deprecated : isDeprecated node = true)
    (inside : place ≠ [])
    (outermost : ∀ above ∈ prunedIn [] role value, above <+: place → above = place) :
    place ∈ prunedIn [] role value := by
  induction place generalizing role value with
  | nil => exact absurd rfl inside
  | cons step place ih =>
    obtain ⟨part, first, here⟩ := Option.bind_eq_some_iff.1 found
    obtain ⟨there, rfl⟩ := mem_of_part? first
    have place_iff : part.step :: place ∈ prunedIn [] role value ↔ _ := cons_mem_prunedIn keys there
    cases dropped : part.isDropped with
    | true =>
      -- the part is left out, so nothing inside it is looked for
      have above : [part.step] ∈ prunedIn [] role value :=
        (cons_mem_prunedIn keys there).2 (by simp [dropped])
      have same := outermost _ above (List.cons_prefix_cons.2 ⟨rfl, List.nil_prefix⟩)
      exact same ▸ above
    | false =>
      rw [dropped, if_neg Bool.false_ne_true] at place_iff
      rw [place_iff]
      cases place with
      | nil =>
        obtain ⟨node, rfl⟩ := Prod.mk.inj (Option.some.inj here)
        simp [Part.isDropped, node, deprecated] at dropped
      | cons next place =>
        refine ih (distinctKeys_part keys there) here (List.cons_ne_nil _ _) ?_
        intro above mem isPrefix
        have whole : part.step :: above ∈ prunedIn [] role value :=
          (cons_mem_prunedIn keys there).2 (by simpa [dropped] using mem)
        exact (List.cons.inj (outermost _ whole (List.cons_prefix_cons.2 ⟨rfl, isPrefix⟩))).2

/-- Where a place inside a part stays, so does the part, and the place as seen from it. -/
theorem stays_part (keys : DistinctKeys value) (mem : part ∈ partsOf role value)
    (stays : ∀ above ∈ prunedIn [] role value, ¬above <+: part.step :: place) :
    part.isDropped = false ∧ ∀ above ∈ prunedIn [] part.role part.value, ¬above <+: place := by
  have kept : part.isDropped = false := by
    refine Bool.eq_false_iff.2 fun dropped => ?_
    have above : [part.step] ∈ prunedIn [] role value :=
      (cons_mem_prunedIn keys mem).2 (by simp [dropped])
    exact stays _ above (List.cons_prefix_cons.2 ⟨rfl, List.nil_prefix⟩)
  refine ⟨kept, fun above left isPrefix => ?_⟩
  have whole : part.step :: above ∈ prunedIn [] role value :=
    (cons_mem_prunedIn keys mem).2 (by simpa [kept] using left)
  exact stays _ whole (List.cons_prefix_cons.2 ⟨rfl, isPrefix⟩)

/-! ## Places of lossy tags -/

/-- The places of the lossy tags in what stays of a value. -/
def lossyIn (table : TagTable) (role : Role) (value : Json) : List Pointer :=
  ((mappedIn table [] role value).filter (·.2.lossy)).map (·.1)

/-- The lossy tags of a value are those of the parts that stay, and its own. -/
theorem lossyIn_parts (table : TagTable) (role : Role) (value : Json) :
    lossyIn table role value =
      ((partsOf role value).flatMap fun part =>
        (if part.isDropped then [] else lossyIn table part.role part.value).map (part.step :: ·)) ++
      ((tagsIn table role value).filter (·.lossy)).map fun _ => [] := by
  unfold lossyIn
  rw [mappedIn_eq, List.filter_append, List.map_append, List.filter_flatMap, List.map_flatMap,
    List.filter_map, List.map_map]
  congr 1
  refine List.flatMap_congr fun part _ => ?_
  split
  · rfl
  · have inside := mappedIn_append table [part.step] [] part.role part.value
    rw [show Pointer.child [] part.step = [part.step] ++ [] from rfl, inside, List.filter_map,
      List.map_map, List.map_map]
    rfl

/-- Where each part of a list gives places behind its own step, those behind a step come from the
part with this step. -/
theorem count_flatMap_steps {parts : List Part} (distinct : (parts.map (·.step)).Nodup)
    (inside : Part → List Pointer) (step : String) (place : Pointer) :
    (parts.flatMap fun part => (inside part).map (part.step :: ·)).count (step :: place) =
      ((parts.find? (·.step = step)).map fun part => (inside part).count place).getD 0 := by
  induction parts with
  | nil => rfl
  | cons part rest ih =>
    rw [List.map_cons, List.nodup_cons] at distinct
    rw [List.flatMap_cons, List.count_append, ih distinct.2, List.find?_cons]
    by_cases same : part.step = step
    · have others : rest.find? (·.step = step) = none := by
        rw [List.find?_eq_none]
        intro other mem
        rw [decide_eq_true_eq]
        intro equal
        exact distinct.1 (List.mem_map.2 ⟨other, mem, equal.trans same.symm⟩)
      rw [others, decide_eq_true same, ← same,
        List.count_map_of_injective _ _ (List.cons_injective (a := part.step))]
      rfl
    · have none : ((inside part).map (part.step :: ·)).count (step :: place) = 0 := by
        rw [List.count_eq_zero]
        intro mem
        obtain ⟨_, -, equal⟩ := List.mem_map.1 mem
        exact same (List.cons.inj equal).1
      rw [none, Nat.zero_add, decide_eq_false same]

theorem count_nil_lossyIn :
    (lossyIn table role value).count [] = (tagsIn table role value).countP (·.lossy) := by
  have noneInside : ((partsOf role value).flatMap fun part =>
      (if part.isDropped then [] else lossyIn table part.role part.value).map
        (part.step :: ·)).count [] = 0 := by
    rw [List.count_eq_zero]
    intro mem
    obtain ⟨part, -, mem⟩ := List.mem_flatMap.1 mem
    obtain ⟨_, -, same⟩ := List.mem_map.1 mem
    cases same
  rw [lossyIn_parts, List.count_append, noneInside, Nat.zero_add, List.countP_eq_length_filter,
    List.map_const', List.count_replicate_self]

theorem count_cons_lossyIn (keys : DistinctKeys value) (mem : part ∈ partsOf role value)
    (kept : part.isDropped = false) :
    (lossyIn table role value).count (part.step :: place) =
      (lossyIn table part.role part.value).count place := by
  have own : (((tagsIn table role value).filter (·.lossy)).map fun _ => ([] : Pointer)).count
      (part.step :: place) = 0 := by
    rw [List.count_eq_zero]
    intro mem
    obtain ⟨_, -, same⟩ := List.mem_map.1 mem
    cases same
  have found : (partsOf role value).find? (·.step = part.step) = some part := part?_of_mem keys mem
  rw [lossyIn_parts, List.count_append, own, Nat.add_zero,
    count_flatMap_steps (nodup_steps role keys), found]
  simp [kept]

/-- A value that stays is listed once for each lossy tag of its own. -/
theorem count_lossyIn (keys : DistinctKeys value) {role' : Role} {value' : Json}
    (found : partAt? role value place = some (role', value'))
    (stays : ∀ above ∈ prunedIn [] role value, ¬above <+: place) :
    (lossyIn table role value).count place = (tagsIn table role' value').countP (·.lossy) := by
  induction place generalizing role value with
  | nil =>
    cases found
    exact count_nil_lossyIn
  | cons step place ih =>
    obtain ⟨part, first, here⟩ := Option.bind_eq_some_iff.1 found
    obtain ⟨there, rfl⟩ := mem_of_part? first
    obtain ⟨kept, stays⟩ := stays_part keys there stays
    rw [count_cons_lossyIn keys there kept]
    exact ih (distinctKeys_part keys there) here stays

/-- Only nodes that stay are listed. -/
theorem node_of_mem_lossyIn (keys : DistinctKeys value) (mem : place ∈ lossyIn table role value) :
    (∃ fields, partAt? role value place = some (.node, .object fields)) ∧
      ∀ above ∈ prunedIn [] role value, ¬above <+: place := by
  induction place generalizing role value with
  | nil =>
    have some : 0 < (tagsIn table role value).countP (·.lossy) :=
      count_nil_lossyIn ▸ List.count_pos_iff.2 mem
    constructor
    · cases role with
      | map => simp [tagsIn] at some
      | node =>
        cases value with
        | object fields => exact ⟨fields, rfl⟩
        | _ => simp [tagsIn] at some
    · intro above left isPrefix
      exact nil_not_mem_prunedIn (List.prefix_nil.1 isPrefix ▸ left)
  | cons step place ih =>
    rw [lossyIn_parts] at mem
    rcases List.mem_append.1 mem with inside | own
    · obtain ⟨part, there, inside⟩ := List.mem_flatMap.1 inside
      obtain ⟨_, inside, same⟩ := List.mem_map.1 inside
      cases same
      cases dropped : part.isDropped with
      | true => simp [dropped] at inside
      | false =>
        rw [dropped, if_neg Bool.false_ne_true] at inside
        obtain ⟨⟨fields, found⟩, stays⟩ := ih (distinctKeys_part keys there) inside
        refine ⟨⟨fields, by rw [partAt?_cons (part?_of_mem keys there), found]⟩, ?_⟩
        intro above left isPrefix
        cases above with
        | nil => exact nil_not_mem_prunedIn left
        | cons first above =>
          obtain ⟨rfl, below⟩ := List.cons_prefix_cons.1 isPrefix
          rw [cons_mem_prunedIn keys there, if_neg (by simp [dropped])] at left
          exact stays above left below
    · obtain ⟨_, -, same⟩ := List.mem_map.1 own
      cases same

/-! ## Reports -/

/-- The tags in the `type` of a node, at any depth of nested lists. -/
def typeTags (fields : List (String × Json)) : List String :=
  match fields.lookup "type" with
  | some tags => tagsOf tags
  | none => []

/-- Whether a tag is mapped to a number that cannot hold all its values. -/
def TagTable.isLossy (table : TagTable) (tag : String) : Bool :=
  (table.lookup tag).any (·.lossy)

theorem countP_ownTags (table : TagTable) (fields : List (String × Json)) :
    (ownTags table fields).countP (·.lossy) = (typeTags fields).countP table.isLossy := by
  have own : ownTags table fields = (typeTags fields).filterMap table.lookup := by
    unfold ownTags typeTags
    cases fields.lookup "type" <;> rfl
  rw [own, List.countP_filterMap]
  refine List.countP_congr fun tag _ => ?_
  unfold TagTable.isLossy
  cases table.lookup tag <;> simp

/-- **A report is exact and points into the schema.** No place that is left out is another such
place or inside it, and the text of each resolves in the schema to a deprecated node. Each deprecated
node is among them, unless it is the schema itself, a map from names to schemas, or inside a place
that is left out. And the places of lossy tags are those of the nodes that stay, each once for every
lossy tag in its `type`. -/
theorem report_points_into_schema (table : TagTable) {schema : Json} (keys : DistinctKeys schema) :
    let report := (normalize table schema).report
    report.pruned.Pairwise Apart ∧
      (report.pruned.map Pointer.text).Nodup ∧
      (∀ place ∈ report.pruned,
        ∃ node, schema.resolve? place.text = some node ∧ isDeprecated node = true) ∧
      (∀ place node, partAt? .node schema place = some (.node, node) →
        isDeprecated node = true → place ≠ [] →
        (∀ above ∈ report.pruned, above <+: place → above = place) → place ∈ report.pruned) ∧
      (∀ place fields, partAt? .node schema place = some (.node, .object fields) →
        (∀ above ∈ report.pruned, ¬above <+: place) →
        report.lossy.count place = (typeTags fields).countP table.isLossy) ∧
      ∀ place ∈ report.lossy,
        (∃ fields, partAt? .node schema place = some (.node, .object fields)) ∧
          ∀ above ∈ report.pruned, ¬above <+: place := by
  intro report
  have apart : (prunedIn [] .node schema).Pairwise Apart := pairwise_prunedIn keys
  refine ⟨apart, ?_, ?_, ?_, ?_, ?_⟩
  · refine List.Nodup.map Pointer.text_injective (apart.imp fun {p q} distinct same => ?_)
    exact distinct.1 (same ▸ List.prefix_refl p)
  · intro place mem
    have left : place ∈ prunedIn [] .node schema := mem
    obtain ⟨node, found, deprecated⟩ := deprecated_of_mem_prunedIn keys left
    refine ⟨node, ?_, deprecated⟩
    rw [Json.resolve?_text, at?_eq .node, found, Option.map_some]
  · intro place node found deprecated inside outermost
    exact mem_prunedIn_of_deprecated keys found deprecated inside outermost
  · intro place fields found stays
    rw [← countP_ownTags]
    exact count_lossyIn keys found stays
  · intro place mem
    have listed : place ∈ lossyIn table .node schema := mem
    exact node_of_mem_lossyIn keys listed

/-- A deprecated property whose name has a slash, a deprecated branch between two others, and a
property with a lossy tag at two depths of its `type`. -/
theorem report_points_into_schema_escaped :
    let schema : Json := .object
      [("properties", .object
        [("a/b", .object [("deprecated", .bool true), ("type", .string "u64")]),
          ("~", .object
            [("type", .array [.string "u64", .array [.string "hex", .string "u64"]])])]),
        ("oneOf", .array [.object [], .object [("deprecated", .number (.int 1))], .object []])]
    let report := (normalize .builtin schema).report
    schema.DistinctKeys ∧
      report.pruned = [["properties", "a/b"], ["oneOf", "1"]] ∧
      (∃ node, schema.resolve? "/properties/a~1b" = some node ∧ isDeprecated node = true) ∧
      report.lossy.count ["properties", "~"] = 2 := by
  intro schema report
  have keys : schema.DistinctKeys := by
    simp [schema]
  have pruned : report.pruned = [["properties", "a/b"], ["oneOf", "1"]] := by decide
  obtain ⟨-, -, points, -, lossy, -⟩ := report_points_into_schema .builtin keys
  refine ⟨keys, pruned, ?_, ?_⟩
  · exact points ["properties", "a/b"] (pruned ▸ List.mem_cons_self)
  · refine lossy ["properties", "~"] _ rfl ?_
    intro above mem
    rw [show (normalize .builtin schema).report.pruned = _ from pruned] at mem
    revert above
    decide

end Bindery.Schema
