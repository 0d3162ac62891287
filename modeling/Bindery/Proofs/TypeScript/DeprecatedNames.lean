import Bindery.Proofs.Schema.NormalForm
import Bindery.Proofs.TypeScript.Typing

/-!
# Deprecated names among the fields of a type

The fields of an object type are the properties of the node and those that its branches declare. In
normal form a node has lost its deprecated properties, and each branch those that are deprecated
where the branch declares them. So a deprecated property of a node is a field of its type exactly
if a branch declares the name once more without a mark.
-/

namespace Bindery.TypeScript
set_option autoImplicit false

open Json (Pointer DistinctKeys)
open Schema (TagTable deprecatedNames isDeprecated lookup_stays_map lookup_stays_node normalize
  normalMap normalNode)

/-! ## The names of an object type -/

section Names

variable {typing : Typing} {place : Pointer} {name : String}

theorem hasField_snoc {fields : List Field} {field : Field} :
    hasField (fields ++ [field]) name = true ↔
      hasField fields name = true ∨ field.1.name = name := by
  simp [hasField]

theorem hasField_ownFields {required : List String} {entries : List (String × Json)}
    {own : List Field} (typed : ownFields typing place required entries = .ok own) :
    hasField own name = true ↔ name ∈ entries.map (·.1) := by
  induction entries generalizing own with
  | nil =>
    cases typed
    simp [hasField]
  | cons entry rest ih =>
    obtain ⟨type, -, typed⟩ := bind_eq_ok.1 typed
    obtain ⟨fields, others, typed⟩ := bind_eq_ok.1 typed
    cases typed
    have rest := ih others
    simp only [hasField, List.any_cons, Bool.or_eq_true, beq_iff_eq, List.map_cons,
      List.mem_cons] at rest ⊢
    rw [rest, eq_comm]

theorem hasField_propertyFields {required : List String} {fields : List (String × Json)}
    {own : List Field} (typed : propertyFields typing place required fields = .ok own) :
    hasField own name = true ↔
      ∃ entries, fields.lookup "properties" = some (.object entries) ∧
        name ∈ entries.map (·.1) := by
  unfold propertyFields at typed
  split at typed
  · next entries found =>
    rw [hasField_ownFields typed, found]
    simp
  · cases typed
  · next found =>
    cases typed
    simp [hasField, found]

theorem hasField_mergeDeclared {ds : List Declared} {known all : List Field}
    (typed : mergeDeclared typing known ds = .ok all) :
    hasField all name = true ↔ hasField known name = true ∨ name ∈ ds.map (·.name) := by
  induction ds generalizing known with
  | nil =>
    cases typed
    simp
  | cons d rest ih =>
    unfold mergeDeclared at typed
    split at typed
    · next taken =>
      rw [ih typed, List.map_cons, List.mem_cons]
      constructor
      · exact Or.imp_right Or.inr
      · rintro (old | rfl | later)
        · exact Or.inl old
        · exact Or.inl taken
        · exact Or.inr later
    · obtain ⟨type, -, typed⟩ := bind_eq_ok.1 typed
      rw [ih typed, hasField_snoc, List.map_cons, List.mem_cons, or_assoc, eq_comm (a := name)]

/-- The fields of an object type are the node's own properties and those of its branches. -/
theorem hasField_objectType {fields : List (String × Json)} {all : List Field}
    (typed : objectType typing place fields = .ok (.object all)) :
    hasField all name = true ↔
      (∃ entries, fields.lookup "properties" = some (.object entries) ∧
        name ∈ entries.map (·.1)) ∨
      ∃ d ∈ declaredInBranches place fields, d.name = name := by
  obtain ⟨required, own, -, properties, branches⟩ := merged_of_objectType typed
  rw [hasField_mergeDeclared branches, hasField_propertyFields properties, List.mem_map]

end Names

/-! ## Branches in normal form -/

section NormalForm

variable {table : TagTable} {fields stays : List (String × Json)}

theorem lookup_stays_properties (normal : normalNode table (.object fields) = .object stays)
    (distinct : (fields.map (·.1)).Nodup) {entries : List (String × Json)} :
    stays.lookup "properties" = some (.object entries) ↔
      ∃ old, fields.lookup "properties" = some (.object old) ∧
        entries = (old.filter (!isDeprecated ·.2)).map fun e => (e.1, normalNode table e.2) := by
  rw [lookup_stays_map normal distinct (by decide)]
  cases fields.lookup "properties" with
  | none => simp
  | some value =>
    cases value with
    | object old => simp [normalMap, Schema.normalEntries_eq, eq_comm]
    | _ => simp [normalMap]

theorem lookup_stays_branch (normal : normalNode table (.object fields) = .object stays)
    (distinct : (fields.map (·.1)).Nodup) {key : String} (among : key ∈ ["then", "else"])
    {branch : Json} :
    stays.lookup key = some branch ↔
      ∃ old, fields.lookup key = some old ∧ isDeprecated old = false ∧
        normalNode table old = branch := by
  have plain : ∀ key ∈ ["then", "else"],
      Schema.isSchemaMap key = false ∧ key ≠ "required" ∧ key ≠ "type" := by decide
  rw [lookup_stays_node normal distinct (plain key among), Option.map_eq_some_iff]
  simp only [Option.filter_eq_some_iff, Bool.not_eq_true', and_assoc]

theorem lookup_stays_allOf (normal : normalNode table (.object fields) = .object stays)
    (distinct : (fields.map (·.1)).Nodup) {items : List Json} :
    stays.lookup "allOf" = some (.array items) ↔
      ∃ old, fields.lookup "allOf" = some (.array old) ∧
        items = (old.filter (!isDeprecated ·)).map (normalNode table) := by
  rw [lookup_stays_node normal distinct (by decide)]
  cases fields.lookup "allOf" with
  | none => simp
  | some value =>
    cases value with
    | array old =>
      have kept : (!isDeprecated (.array old)) = true := rfl
      rw [Option.filter_some, if_pos kept]
      simp [normalNode, Schema.normalItems_eq, eq_comm]
    | _ => simp [normalNode, Option.filter]

/-- The branches of a node in normal form are the branches that stay, in normal form. -/
theorem branch_stays_iff (place : Pointer)
    (normal : normalNode table (.object fields) = .object stays)
    (distinct : (fields.map (·.1)).Nodup) {branch : Json} :
    (∃ spot, Branch place stays spot branch) ↔
      ∃ spot old, Branch [] fields spot old ∧ isDeprecated old = false ∧
        normalNode table old = branch := by
  constructor
  · rintro ⟨_, here⟩
    cases here with
    | key among found =>
      obtain ⟨old, found, kept, same⟩ := (lookup_stays_branch normal distinct among).1 found
      exact ⟨_, old, .key among found, kept, same⟩
    | item found here =>
      obtain ⟨items, before, rfl⟩ := (lookup_stays_allOf normal distinct).1 found
      obtain ⟨old, mem, same⟩ := List.mem_map.1 (List.mem_of_getElem? here)
      obtain ⟨mem, kept⟩ := List.mem_filter.1 mem
      obtain ⟨position, there⟩ := List.mem_iff_getElem?.1 mem
      exact ⟨_, old, .item before there, by simpa using kept, same⟩
  · rintro ⟨_, old, here, kept, rfl⟩
    cases here with
    | key among found =>
      exact ⟨_, .key among ((lookup_stays_branch normal distinct among).2 ⟨old, found, kept, rfl⟩)⟩
    | @item items _ _ found here =>
      have mem : normalNode table old ∈ (items.filter (!isDeprecated ·)).map (normalNode table) :=
        List.mem_map.2 ⟨old, List.mem_filter.2 ⟨List.mem_of_getElem? here, by simp [kept]⟩, rfl⟩
      obtain ⟨position, here⟩ := List.mem_iff_getElem?.1 mem
      exact ⟨_, .item ((lookup_stays_allOf normal distinct).2 ⟨items, found, rfl⟩) here⟩

/-- A property that a branch declares without a mark, itself or in a branch of its own that stays. -/
inductive Declares : Json → String → Prop
  | own {fields entries : List (String × Json)} {entry : String × Json}
      (found : fields.lookup "properties" = some (.object entries)) (mem : entry ∈ entries)
      (kept : isDeprecated entry.2 = false) : Declares (.object fields) entry.1
  | branch {fields : List (String × Json)} {spot : Pointer} {branch : Json} {name : String}
      (here : Branch [] fields spot branch) (kept : isDeprecated branch = false)
      (inner : Declares branch name) : Declares (.object fields) name

theorem Branch.distinctKeys {place spot : Pointer} {branch : Json}
    (h : Branch place fields spot branch) (keys : DistinctKeys (.object fields)) :
    DistinctKeys branch := by
  cases keys with
  | object _ each =>
    cases h with
    | key _ found => exact each _ (mem_of_lookup found)
    | item found here =>
      cases each _ (mem_of_lookup found) with
      | array each => exact each _ (List.mem_of_getElem? here)

/-- The names that a branch in normal form declares. -/
theorem declares_iff (table : TagTable) (place : Pointer) {branch : Json}
    (keys : DistinctKeys branch) {name : String} :
    (∃ d ∈ declaredIn place (normalNode table branch), d.name = name) ↔ Declares branch name := by
  induction branch using Json.inductDepth generalizing place with
  | step branch ih =>
    cases branch with
    | object fields =>
      have distinct : (fields.map (·.1)).Nodup := (Json.distinctKeys_object.1 keys).1
      obtain ⟨stays, normal⟩ : ∃ stays, normalNode table (.object fields) = .object stays :=
        ⟨_, Schema.normalNode_object table fields⟩
      rw [normal]
      constructor
      · rintro ⟨d, mem, rfl⟩
        rcases mem_declaredIn_object.1 mem with own | inner
        · obtain ⟨entries, found, entry, mem, rfl⟩ := mem_declaredProperties.1 own
          obtain ⟨old, before, rfl⟩ := (lookup_stays_properties normal distinct).1 found
          obtain ⟨entry, there, rfl⟩ := List.mem_map.1 mem
          obtain ⟨there, kept⟩ := List.mem_filter.1 there
          exact .own before there (by simpa using kept)
        · obtain ⟨spot, branch, here, mem⟩ := mem_declaredInBranches.1 inner
          obtain ⟨spot', old, before, kept, rfl⟩ :=
            (branch_stays_iff _ normal distinct).1 ⟨spot, here⟩
          exact .branch before kept
            ((ih old before.depth_lt _ (before.distinctKeys keys)).1 ⟨d, mem, rfl⟩)
      · intro declares
        cases declares with
        | @own _ entries entry found mem kept =>
          have found := (lookup_stays_properties normal distinct).2 ⟨entries, found, rfl⟩
          have mem : (entry.1, normalNode table entry.2) ∈
              (entries.filter (!isDeprecated ·.2)).map fun e => (e.1, normalNode table e.2) :=
            List.mem_map.2 ⟨entry, List.mem_filter.2 ⟨mem, by simp [kept]⟩, rfl⟩
          exact ⟨_, mem_declaredIn_object.2 (Or.inl (mem_declaredProperties.2
            ⟨_, found, _, mem, rfl⟩)), rfl⟩
        | @branch _ _ old _ here kept inner =>
          have deeper := here.depth_lt
          have keys := here.distinctKeys keys
          obtain ⟨spot, there⟩ :=
            (branch_stays_iff place normal distinct).2 ⟨_, old, here, kept, rfl⟩
          obtain ⟨d, mem, same⟩ := (ih old deeper spot keys).2 inner
          exact ⟨d, mem_declaredIn_object.2 (Or.inr (mem_declaredInBranches.2
            ⟨spot, _, there, mem⟩)), same⟩
    | _ =>
      constructor
      · rintro ⟨d, mem, -⟩
        simp [normalNode, declaredIn] at mem
      · intro declares
        cases declares

end NormalForm

/-- **A deprecated property is a field of its node's type exactly if a branch declares it anew**: a
branch that is not deprecated, at any depth, declares the name without a mark. -/
theorem deprecated_hasField_iff {table : TagTable} {fields stays : List (String × Json)}
    (keys : DistinctKeys (.object fields)) (normal : normalNode table (.object fields) = .object stays)
    {typing : Typing} {place : Pointer} {all : List Field}
    (typed : objectType typing place stays = .ok (.object all)) {name : String}
    (deprecated : name ∈ deprecatedNames fields) :
    hasField all name = true ↔
      ∃ spot branch, Branch [] fields spot branch ∧ isDeprecated branch = false ∧
        Declares branch name := by
  obtain ⟨distinct, each⟩ := Json.distinctKeys_object.1 keys
  have gone : ¬∃ entries, stays.lookup "properties" = some (.object entries) ∧
      name ∈ entries.map (·.1) := by
    rintro ⟨entries, found, mem⟩
    obtain ⟨old, before, rfl⟩ := (lookup_stays_properties normal distinct).1 found
    have names : (old.map (·.1)).Nodup :=
      (Json.distinctKeys_object.1 (each _ (mem_of_lookup before))).1
    unfold deprecatedNames at deprecated
    rw [before] at deprecated
    obtain ⟨marked, mem', rfl⟩ := List.mem_map.1 deprecated
    obtain ⟨mem', mark⟩ := List.mem_filter.1 mem'
    rw [List.map_map] at mem
    obtain ⟨kept, mem, same⟩ := List.mem_map.1 mem
    obtain ⟨mem, noMark⟩ := List.mem_filter.1 mem
    -- A name stands once in the map, so the entry that stays would be the one that carries a mark.
    have one : kept = marked := List.inj_on_of_nodup_map names mem mem' same
    rw [one, mark] at noMark
    cases noMark
  rw [hasField_objectType typed, or_iff_right gone]
  constructor
  · rintro ⟨d, mem, same⟩
    obtain ⟨spot, branch, here, mem⟩ := mem_declaredInBranches.1 mem
    obtain ⟨spot', old, before, kept, rfl⟩ := (branch_stays_iff _ normal distinct).1 ⟨spot, here⟩
    exact ⟨spot', old, before, kept,
      (declares_iff table _ (before.distinctKeys keys)).1 ⟨d, mem, same⟩⟩
  · rintro ⟨_, old, here, kept, declares⟩
    obtain ⟨spot, there⟩ := (branch_stays_iff place normal distinct).2 ⟨_, old, here, kept, rfl⟩
    obtain ⟨d, mem, same⟩ := (declares_iff table spot (here.distinctKeys keys)).2 declares
    exact ⟨d, mem_declaredInBranches.2 ⟨spot, _, there, mem⟩, same⟩

/-- A node with two properties, one of which is deprecated but stands in a branch once more. -/
def mentionedAgain : List (String × Json) :=
  [("type", .string "object"),
    ("properties", .object
      [("id", .object [("type", .string "string")]),
        ("old", .object [("type", .string "string"), ("deprecated", .bool true)])]),
    ("then", .object [("properties", .object [("old", .object [])])])]

/-- The fields of its type. -/
def bothFields : List Field :=
  [(⟨"id", true, none⟩, .string), (⟨"old", true, none⟩, .unknown)]

theorem deprecated_hasField_iff_mentionedAgain :
    ∃ stays, DistinctKeys (.object mentionedAgain) ∧
      normalNode .builtin (.object mentionedAgain) = .object stays ∧
      objectType typeOfNode [] stays = .ok (.object bothFields) ∧
      "old" ∈ deprecatedNames mentionedAgain ∧
      (hasField bothFields "old" = true ↔
        ∃ spot branch, Branch [] mentionedAgain spot branch ∧ isDeprecated branch = false ∧
          Declares branch "old") := by
  have keys : DistinctKeys (.object mentionedAgain) := by
    simp [mentionedAgain]
  have normal : normalNode .builtin (.object mentionedAgain) = .object
      [("type", .string "object"),
        ("properties", .object [("id", .object [("type", .string "string")])]),
        ("then", .object [("properties", .object [("old", .object [])])])] := rfl
  have typed : objectType typeOfNode []
      [("type", .string "object"),
        ("properties", .object [("id", .object [("type", .string "string")])]),
        ("then", .object [("properties", .object [("old", .object [])])])] =
      .ok (.object bothFields) := rfl
  have deprecated : "old" ∈ deprecatedNames mentionedAgain := by decide
  exact ⟨_, keys, normal, typed, deprecated, deprecated_hasField_iff keys normal typed deprecated⟩

/-- A deprecated property can be a field of its node's type. -/
theorem deprecated_field_returns :
    ¬∀ (table : TagTable) (fields : List (String × Json)) (all : List Field),
      typeOfSchema (normalize table (.object fields)).schema = .ok (.object all) →
      ∀ name ∈ deprecatedNames fields, hasField all name = false := by
  intro never
  have typed : typeOfSchema (normalize .builtin (.object mentionedAgain)).schema =
      .ok (.object bothFields) := rfl
  have gone := never .builtin mentionedAgain _ typed "old" (by decide)
  cases gone

end Bindery.TypeScript
