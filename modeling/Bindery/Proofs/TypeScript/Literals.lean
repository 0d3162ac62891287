import Bindery.Proofs.Schema.Survivors
import Bindery.Proofs.Schema.Unchanged
import Bindery.Proofs.TypeScript.Defects
import Bindery.Proofs.TypeScript.NormalTypes

/-!
# Literals in normal form

Normalizing treats the values of `const` and `enum` like any other values: a deprecated one is left
out, and every other is brought into its own normal form. So the literal type of a node is that of
its normal form exactly if all its values are normal already. Values that hold no object are.
-/

namespace Bindery.TypeScript
set_option autoImplicit false

open Json (DistinctKeys Pointer)
open Schema (IsNormal Role TagTable isDeprecated normalNode normalPlace normalize partAt? roleOf)

/-- The values that a node's literal type stands for, if the node has one: that of `const`, or else
those of `enum`. -/
def literals? (fields : List (String × Json)) : Option (List Json) :=
  match fields.lookup "const", fields.lookup "enum" with
  | some value, _ => some [value]
  | none, some (.array values) => some values
  | none, _ => none

/-- The type of one of some values. -/
def literalType (values : List Json) : TypeExpr :=
  .unionOf (values.map .literal)

/-- A value that normalizing keeps as it is. -/
structure IsKept (table : TagTable) (value : Json) : Prop where
  stays : isDeprecated value = false
  normal : IsNormal table .node value

/-- A value that holds no object. -/
inductive ObjectFree : Json → Prop
  | null : ObjectFree .null
  | bool (b : Bool) : ObjectFree (.bool b)
  | number (n : Json.Number) : ObjectFree (.number n)
  | string (s : String) : ObjectFree (.string s)
  | array {items : List Json} (each : ∀ item ∈ items, ObjectFree item) : ObjectFree (.array items)

section Literals

variable {table : TagTable} {value : Json} {fields fields' : List (String × Json)}
  {values values' : List Json}

/-! ## Values that are kept -/

theorem ObjectFree.stays (h : ObjectFree value) : isDeprecated value = false := by
  cases h <;> rfl

theorem ObjectFree.isKept (h : ObjectFree value) : IsKept table value := by
  refine ⟨h.stays, ?_⟩
  induction h with
  | null => exact .null .node
  | bool b => exact .bool .node b
  | number n => exact .number .node n
  | string s => exact .string .node s
  | array each ih => exact .array .node (fun item mem => (each item mem).stays) ih

theorem IsKept.of_same {other : Json} (same : value.same other = true) (kept : IsKept table other) :
    IsKept table value :=
  ⟨Schema.not_isDeprecated_of_same same kept.stays, kept.normal.of_same same⟩

/-- What is left of a value that stays is kept when normalizing again. -/
theorem isKept_normalNode (reachable : table.Reachable) (keys : DistinctKeys value)
    (stays : isDeprecated value = false) : IsKept table (normalNode table value) :=
  ⟨(Schema.isDeprecated_normalNode table keys).trans stays,
    Schema.isNormal_normalIn reachable keys .node⟩

/-- A list is kept exactly if its items are. -/
theorem isKept_array : IsKept table (.array values) ↔ ∀ value ∈ values, IsKept table value := by
  constructor
  · rintro ⟨-, normal⟩ value mem
    cases normal with
    | array _ kept each => exact ⟨kept value mem, each value mem⟩
  · intro each
    exact ⟨rfl, .array .node (fun value mem => (each value mem).stays)
      fun value mem => (each value mem).normal⟩

/-! ## Literal types -/

theorem literals?_eq_some :
    literals? fields = some values ↔
      (∃ value, fields.lookup "const" = some value ∧ values = [value]) ∨
        (fields.lookup "const" = none ∧ fields.lookup "enum" = some (.array values)) := by
  unfold literals?
  split
  · next value const => simp [const, eq_comm]
  · next const enum => simp [const, enum]
  · next const other =>
    have noList : fields.lookup "enum" ≠ some (.array values) := other values
    simp [const, noList]

/-- What holds of the values under both keys, and of the items of such a list, holds of literals. -/
theorem forall_literals {P : Json → Prop}
    (items : ∀ values, P (.array values) → ∀ value ∈ values, P value)
    (each : ∀ key ∈ ["const", "enum"], ∀ value, fields.lookup key = some value → P value)
    (found : literals? fields = some values) : ∀ value ∈ values, P value := by
  rcases literals?_eq_some.1 found with ⟨value, const, rfl⟩ | ⟨-, enum⟩
  · exact List.forall_mem_singleton.2 (each "const" (by simp) value const)
  · exact items values (each "enum" (by simp) _ enum)

/-- The type of a node with literals is their type. -/
theorem typeOfNode_of_literals (found : literals? fields = some values) (spot : Pointer) :
    typeOfNode spot (.object fields) = .ok (literalType values) := by
  rw [typeOfNode_object, fieldsType]
  rcases literals?_eq_some.1 found with ⟨value, const, rfl⟩ | ⟨const, enum⟩
  · rw [const]
    rfl
  · rw [const, enum]
    rfl

theorem members_literalType (values : List Json) :
    (literalType values).members = (values.map .literal).foldl TypeExpr.insertNew [] := by
  have members : (values.map TypeExpr.literal).flatMap TypeExpr.members = values.map .literal := by
    rw [List.flatMap_map]
    exact List.map_eq_flatMap.symm
  rw [literalType, TypeExpr.members_unionOf, members]
  rw [members, List.forall_mem_map]
  nofun

/-- The members of a literal type are literals of its values. -/
theorem exists_value_of_member {member : TypeExpr} (mem : member ∈ (literalType values).members) :
    ∃ value ∈ values, .literal value = member := by
  rw [members_literalType] at mem
  exact List.mem_map.1 ((TypeExpr.mem_foldl_insertNew mem).resolve_left List.not_mem_nil)

/-- A value among others is alike to one that is a member of their type. -/
theorem exists_member_of_value (keys : DistinctKeys value) (mem : value ∈ values) :
    ∃ first ∈ values, .literal first ∈ (literalType values).members ∧ first.same value = true := by
  have self : (TypeExpr.literal value).same (.literal value) = true := Json.same_self keys
  obtain ⟨old, there, same⟩ := TypeExpr.present_foldl_insertNew [] self
    (List.mem_map_of_mem mem)
  rw [← members_literalType] at there
  obtain ⟨first, among, rfl⟩ := exists_value_of_member there
  exact ⟨first, among, there, same⟩

/-- If the type of some values is alike to that of values that are kept, they are kept as well. -/
theorem isKept_of_alike (keys : ∀ value ∈ values, DistinctKeys value)
    (keys' : ∀ value ∈ values', DistinctKeys value) (kept : ∀ value ∈ values', IsKept table value)
    (alike : (literalType values).same (literalType values') = true) :
    ∀ value ∈ values, IsKept table value := by
  have form : NormalForm (literalType values) :=
    NormalForm.unionOf (List.forall_mem_map.2 fun value mem => .literal (keys value mem))
  intro value mem
  obtain ⟨first, here, member, same⟩ := exists_member_of_value (keys value mem) mem
  obtain ⟨_, there, alike⟩ := TypeExpr.exists_member_of_same (form.same_symm alike) member
  obtain ⟨other, inside, rfl⟩ := exists_value_of_member there
  -- the value is the same as the first one like it, and that one the same as a value that is kept
  have back : first.same other = true := Json.same_symm (keys' other inside) alike
  have swap : value.same first = true := Json.same_symm (keys first here) same
  exact (kept other inside).of_same (Json.same_trans swap back)

/-! ## Literals of a node in normal form -/

theorem distinctKeys_literals (keys : DistinctKeys (.object fields))
    (found : literals? fields = some values) : ∀ value ∈ values, DistinctKeys value := by
  have each := (Json.distinctKeys_object.1 keys).2
  exact forall_literals (fun _ => Json.distinctKeys_array.1)
    (fun _ _ _ here => each _ (mem_of_lookup here)) found

section Node

variable (normal : normalNode table (.object fields) = .object fields')
  (keys : DistinctKeys (.object fields))
include normal keys

theorem lookup_literals {key : String} (among : key ∈ ["const", "enum"]) :
    fields'.lookup key =
      ((fields.lookup key).filter fun v => !isDeprecated v).map (normalNode table) := by
  have plain : ∀ key ∈ ["const", "enum"],
      Schema.isSchemaMap key = false ∧ key ≠ "required" ∧ key ≠ "type" := by decide
  exact Schema.lookup_stays_node normal (Json.distinctKeys_object.1 keys).1 (plain key among)

/-- What a node has under such a key in normal form is kept. -/
theorem isKept_lookup (reachable : table.Reachable) {key : String} (among : key ∈ ["const", "enum"])
    (found : fields'.lookup key = some value) : IsKept table value ∧ DistinctKeys value := by
  rw [lookup_literals normal keys among] at found
  obtain ⟨old, there, rfl⟩ := Option.map_eq_some_iff.1 found
  obtain ⟨there, stays⟩ := Option.filter_eq_some_iff.1 there
  have distinct := (Json.distinctKeys_object.1 keys).2 _ (mem_of_lookup there)
  exact ⟨isKept_normalNode reachable distinct (by simpa using stays),
    Schema.distinctKeys_normalNode distinct⟩

/-- A value that is kept stands where it stood. -/
theorem lookup_of_isKept {key : String} (among : key ∈ ["const", "enum"])
    (found : fields.lookup key = some value) (kept : IsKept table value) :
    fields'.lookup key = some value := by
  have same : normalNode table value = value := kept.normal.normalIn_eq
  rw [lookup_literals normal keys among, found, Option.filter_some, if_pos (by simp [kept.stays]),
    Option.map_some, same]

theorem isKept_literals (reachable : table.Reachable) (found : literals? fields' = some values) :
    ∀ value ∈ values, IsKept table value ∧ DistinctKeys value := by
  refine forall_literals ?_ (fun key among value => isKept_lookup normal keys reachable among) found
  rintro values ⟨kept, distinct⟩ value mem
  exact ⟨isKept_array.1 kept value mem, Json.distinctKeys_array.1 distinct value mem⟩

/-- Literals that are all kept are those of the node in normal form. -/
theorem literals?_of_isKept (found : literals? fields = some values)
    (kept : ∀ value ∈ values, IsKept table value) : literals? fields' = some values := by
  rw [literals?_eq_some] at found ⊢
  rcases found with ⟨value, const, rfl⟩ | ⟨const, enum⟩
  · have stays := lookup_of_isKept normal keys (by simp) const (kept value List.mem_cons_self)
    exact Or.inl ⟨value, stays, rfl⟩
  · have absent : fields'.lookup "const" = none := by
      rw [lookup_literals normal keys (by simp), const]
      rfl
    exact Or.inr ⟨absent, lookup_of_isKept normal keys (by simp) enum (isKept_array.2 kept)⟩

end Node

end Literals

/-- Every part of a schema has its role. -/
theorem inherited_partAt {schema : Json} (keys : DistinctKeys schema) :
    InheritedAs fun role place value => partAt? .node schema place = some (role, value) where
  item {_ _ _ position item} here there :=
    have mem : (item, position) ∈ _ := List.mem_zipIdx_iff_getElem?.2 there
    Schema.partAt?_child keys here (List.mem_map.2 ⟨_, mem, rfl⟩)
  field here mem := Schema.partAt?_child keys here (List.mem_map.2 ⟨_, mem, rfl⟩)
  entry here mem := Schema.partAt?_child keys here (List.mem_map.2 ⟨_, mem, rfl⟩)

/-- **Literals are normalized like any other values.** Every node whose type is asked for is a node
to normalizing too. Where a node stays, a deprecated value of its `const` or `enum` is left out, and
any other becomes what it is normalized to alone. So the value is the same as before exactly if it is
kept, as one without objects always is, and the node's literal type is alike to that before exactly
if all its values are. -/
theorem literal_types_kept_iff {table : TagTable} (reachable : table.Reachable) {schema : Json}
    (keys : schema.DistinctKeys) :
    (∀ place inner, Within [] schema place inner →
      partAt? .node schema place = some (.node, inner)) ∧
    (∀ value, ObjectFree value → IsKept table value) ∧
    (∀ fields values, literals? fields = some values →
      ∀ spot, typeOfNode spot (.object fields) = .ok (literalType values)) ∧
    ∀ place fields, partAt? .node schema place = some (.node, .object fields) →
      (∀ above ∈ (normalize table schema).report.pruned, ¬above <+: place) →
      ∃ fields', (normalize table schema).schema.at? (normalPlace schema place) =
          some (.object fields') ∧
        (∀ key ∈ ["const", "enum"], fields'.lookup key =
          ((fields.lookup key).filter fun value => !isDeprecated value).map fun value =>
            (normalize table value).schema) ∧
        (∀ key ∈ ["const", "enum"], ∀ value, fields.lookup key = some value →
          (IsKept table value → fields'.lookup key = some value) ∧
          ∀ value', fields'.lookup key = some value' → value.same value' = true →
            IsKept table value) ∧
        ∀ values, literals? fields = some values →
          ((∀ value ∈ values, IsKept table value) → literals? fields' = some values) ∧
          ∀ values', literals? fields' = some values' →
            (literalType values).same (literalType values') = true →
              ∀ value ∈ values, IsKept table value := by
  refine ⟨fun place inner within => (inherited_partAt keys).within rfl within,
    fun value plain => plain.isKept, fun fields values => typeOfNode_of_literals, ?_⟩
  intro place fields node stays
  have normal := Schema.normalNode_object table fields
  have distinct : DistinctKeys (.object fields) := Schema.distinctKeys_partAt keys node
  refine ⟨_, (Schema.at?_normalPlace table keys node stays).trans (congrArg some normal), ?_, ?_, ?_⟩
  · exact fun key among => lookup_literals normal distinct among
  · intro key among value found
    refine ⟨lookup_of_isKept normal distinct among found, fun value' there same => ?_⟩
    exact (isKept_lookup normal distinct reachable among there).1.of_same same
  · intro values found
    refine ⟨literals?_of_isKept normal distinct found, fun values' there alike => ?_⟩
    have kept := isKept_literals normal distinct reachable there
    exact isKept_of_alike (distinctKeys_literals distinct found)
      (fun value mem => (kept value mem).2) (fun value mem => (kept value mem).1) alike

/-- An `enum` in a branch that moves up, with a tag of the table as a string and with an object. -/
theorem literal_types_kept_iff_branch :
    let values : List Json := [.array [.string "txid"], .object [("type", .string "string")]]
    let node : List (String × Json) := [("enum", .array values)]
    let schema : Json := .object
      [("oneOf", .array [.object [("deprecated", .bool true)], .object node])]
    TagTable.builtin.Reachable ∧ schema.DistinctKeys ∧
      partAt? .node schema ["oneOf", "1"] = some (.node, .object node) ∧
      (∀ above ∈ (normalize .builtin schema).report.pruned, ¬above <+: ["oneOf", "1"]) ∧
      ∃ fields', (normalize .builtin schema).schema.at? ["oneOf", "0"] = some (.object fields') ∧
        typeOfNode ["oneOf", "1"] (.object node) = .ok (literalType values) ∧
        typeOfNode ["oneOf", "0"] (.object fields') = .ok (literalType values) := by
  intro values node schema
  have keys : schema.DistinctKeys := by
    simp [schema, node, values]
  have here : partAt? .node schema ["oneOf", "1"] = some (.node, .object node) := by
    with_unfolding_all rfl
  have stays : ∀ above ∈ (normalize .builtin schema).report.pruned, ¬above <+: ["oneOf", "1"] := by
    decide
  have moved : normalPlace schema ["oneOf", "1"] = ["oneOf", "0"] := by decide
  obtain ⟨-, objectFree, typed, nodes⟩ := literal_types_kept_iff .builtin keys
  obtain ⟨fields', there, -, -, literals⟩ := nodes _ node here stays
  have kept : ∀ value ∈ values, IsKept .builtin value := by
    refine List.forall_mem_cons.2 ⟨objectFree _ ?_, List.forall_mem_singleton.2 ⟨rfl, ?_⟩⟩
    · exact .array (List.forall_mem_singleton.2 (.string "txid"))
    · exact .node (by decide) (List.forall_mem_singleton.2 (.string _ "string")) (by decide)
  have same : literals? fields' = some values := (literals values rfl).1 kept
  exact ⟨.builtin, keys, here, stays, fields', moved ▸ there, typed _ _ rfl _, typed _ _ same _⟩

/-- An object under `const` that looks like a node with a tag of the table. The schema stays, and
nothing is deprecated, but the literal is another one. -/
theorem literal_rewritten_hex :
    let literal (tag : String) : Json := .object [("type", .string tag)]
    let schema : Json := .object [("const", literal "hex")]
    let output := (normalize .builtin schema).schema
    TagTable.builtin.Reachable ∧ schema.DistinctKeys ∧ Within [] schema [] schema ∧
      (normalize .builtin schema).report.pruned = [] ∧
      output.at? (normalPlace schema []) = some output ∧
      output.get? "const" = some (literal "string") ∧
      (literal "hex").same (literal "string") = false ∧
      typeOfSchema schema = .ok (.literal (literal "hex")) ∧
      typeOfSchema output = .ok (.literal (literal "string")) := by
  intro literal schema output
  have keys : schema.DistinctKeys := by
    simp [schema, literal]
  exact ⟨.builtin, keys, .here [] schema, rfl, rfl, rfl, by decide, rfl, rfl⟩

end Bindery.TypeScript
