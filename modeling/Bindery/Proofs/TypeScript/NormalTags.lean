import Bindery.Proofs.TypeScript.Defects

/-!
# Tags of the table never become types

Every node that is asked for to find the type of a normal node is normal itself: the two agree on
which values are nodes and which are maps from names to nodes. So no tag of the table is met.
-/

namespace Bindery.TypeScript
set_option autoImplicit false

open Json (Pointer)
open Schema (IsNormal TagTable genericTags normalize tagsOf tagsOfItems_eq)

section Normal

variable {table : TagTable} {fields : List (String × Json)}

/-- The parts of a normal value are normal in their roles. -/
theorem inherited_normal : InheritedAs fun role _ value => IsNormal table role value where
  item normal there := by
    cases normal with
    | array _ _ each => exact each _ (List.mem_of_getElem? there)
  field normal mem := by
    cases normal with
    | node _ each _ => exact each _ mem
  entry normal mem := by
    cases normal with
    | map _ each => exact each _ mem

theorem normal_within {place spot : Pointer} {node inner : Json}
    (normal : IsNormal table .node node) (within : Within place node spot inner) :
    IsNormal table .node inner :=
  inherited_normal.within normal within

theorem normal_tags {tags : Json} {tag : String} (normal : IsNormal table .node (.object fields))
    (found : fields.lookup "type" = some tags) (mem : tag ∈ tagsOf tags) :
    table.lookup tag = none := by
  cases normal with
  | node _ _ generic => exact generic ("type", tags) (mem_of_lookup found) rfl tag mem

end Normal

/-- No other defect is worded like that of an unknown tag. -/
theorem unknownType_of_message {defect : Defect} {tag : String}
    (worded : defect.message = "unknown type '" ++ tag ++ "'") : defect = .unknownType tag := by
  have first : defect.message.toList.head? = some 'u' := by
    rw [worded, String.append_assoc, String.toList_append, List.head?_append]
    simp
  unfold Defect.message at first
  cases defect with
  | unknownType other =>
    have same : other = tag := (String.append_right_inj _).1 ((String.append_left_inj _).1 worded)
    rw [same]
  | notANode value => simp at first
  | notAnArray keyword => simp at first
  | typeShape => simp at first
  | requiredShape => simp at first
  | propertiesShape => simp at first

/-- **No tag of the table reaches the types.** A tag that is reported as unknown is neither in the
table nor generic, and no node whose type is asked for has a tag of the table in its `type`. -/
theorem unknown_tags_not_in_table {table : TagTable} (reachable : table.Reachable) {schema : Json}
    (keys : schema.DistinctKeys) :
    (∀ name error tag, compile name (normalize table schema).schema = .error error →
      error.misfit.defect.message = "unknown type '" ++ tag ++ "'" →
      table.lookup tag = none ∧ tag ∉ genericTags) ∧
    ∀ spot fields tags, Within [] (normalize table schema).schema spot (.object fields) →
      fields.lookup "type" = some tags → ∀ tag ∈ tagsOf tags, table.lookup tag = none := by
  have normal : IsNormal table .node (normalize table schema).schema :=
    Schema.isNormal_normalIn reachable keys .node
  constructor
  · intro name error tag failed worded
    unfold compile at failed
    split at failed
    · cases failed
    · next misfit failed' =>
      cases failed
      obtain ⟨spot, inner, within, shows⟩ := shows_of_typeOfNode_error failed'
      obtain ⟨place, defect⟩ := misfit
      cases unknownType_of_message worded
      cases shows with
      | @unknownType fields value _ found mem unknown =>
        refine ⟨normal_tags (normal_within normal within) found ?_, unknown⟩
        rcases mem with rfl | ⟨items, rfl, mem⟩
        · simp [tagsOf]
        · rw [tagsOf, tagsOfItems_eq, List.mem_flatMap]
          exact ⟨_, mem, by simp [tagsOf]⟩
  · intro spot fields tags within found tag mem
    exact normal_tags (normal_within normal within) found mem

/-- Properties called `type` and `properties`, one with tags of the table in a list, the other with a
tag that no project has. -/
theorem unknown_tags_not_in_table_foo :
    let table : TagTable := ⟨TagTable.builtin.entries ++ [("outpoint", ⟨.text, false⟩)]⟩
    let schema : Json := .object [("type", .string "object"), ("properties", .object [
      ("type", .object [("type", .array [.string "outpoint", .string "u64"])]),
      ("properties", .object [("items", .array [.object [("type", .string "foo")]])])])]
    let error : TypeError :=
      ⟨"Result", ⟨["properties", "properties", "items", "0", "type"], .unknownType "foo"⟩⟩
    let generic : List (String × Json) := [("type", .array [.string "string", .string "number"])]
    table.Reachable ∧ schema.DistinctKeys ∧
      compile "Result" (normalize table schema).schema = .error error ∧
      error.misfit.defect.message = "unknown type '" ++ "foo" ++ "'" ∧
      (table.lookup "foo" = none ∧ "foo" ∉ genericTags) ∧
      Within [] (normalize table schema).schema ["properties", "type"] (.object generic) ∧
      table.lookup "number" = none := by
  intro table schema error generic
  have added : TagTable.builtin.add "outpoint" .text = .ok table := rfl
  have reachable : table.Reachable := TagTable.Reachable.builtin.add added
  have keys : schema.DistinctKeys := by
    simp [schema]
  have failed : compile "Result" (normalize table schema).schema = .error error := rfl
  have within : Within [] (normalize table schema).schema ["properties", "type"]
      (.object generic) :=
    .inside (.property rfl (.head _)) (.here _ _)
  obtain ⟨unknown, known⟩ := unknown_tags_not_in_table reachable keys
  exact ⟨reachable, keys, failed, rfl, unknown "Result" error "foo" failed rfl, within,
    known _ generic _ within rfl "number" (by simp [tagsOf, Schema.tagsOfItems])⟩

end Bindery.TypeScript
