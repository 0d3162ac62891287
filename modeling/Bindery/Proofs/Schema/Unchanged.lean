import Bindery.Proofs.Json.Same
import Bindery.Proofs.Schema.Changes

/-!
# Schemas that stay as they are

A schema for which nothing is reported is normal, and so is its own normal form. The other way
round, a schema that is the same as its normal form is normal, whatever the order of its fields, so
there is nothing to report. With this a report says all that normalizing changes.
-/

namespace Bindery.Schema
set_option autoImplicit false

open Json (DistinctKeys Pointer)

variable {table : TagTable} {schema value a b : Json} {place : Pointer} {role : Role}

theorem isZeroNumber_of_same {m n : Json.Number} (same : m.same n = true) :
    isZeroNumber m = isZeroNumber n := by
  rcases Json.Number.same_iff.1 same with rfl | ⟨x, y, rfl, rfl, zero, zero'⟩
  · rfl
  · rw [isZeroNumber, isZeroNumber, zero, zero']

theorem isTruthy_of_same (same : a.same b = true) (truthy : isTruthy a = true) :
    isTruthy b = true := by
  cases a with
  | null => cases truthy
  | bool x =>
    cases b with
    | bool y => rwa [LawfulBEq.eq_of_beq (show (x == y) = true from same)] at truthy
    | _ => cases same
  | number m =>
    cases b with
    | number n =>
      have zeros : isZeroNumber m = isZeroNumber n := isZeroNumber_of_same same
      rwa [isTruthy, zeros] at truthy
    | _ => cases same
  | string s =>
    cases b with
    | string t => rwa [LawfulBEq.eq_of_beq (show (s == t) = true from same)] at truthy
    | _ => cases same
  | array _ =>
    cases b with
    | array _ => rfl
    | _ => cases same
  | object _ =>
    cases b with
    | object _ => rfl
    | _ => cases same

theorem isDeprecated_of_same (same : a.same b = true) (deprecated : isDeprecated a = true) :
    isDeprecated b = true := by
  unfold isDeprecated at deprecated
  split at deprecated
  · cases deprecated
  · cases deprecated
  · next mark plain found =>
    cases a with
    | object fs =>
      cases b with
      | object gs =>
        obtain ⟨-, same⟩ := Bool.and_eq_true_iff.1 same
        obtain ⟨other, there, same⟩ := Json.lookup_of_sameFields same (mem_of_lookup found)
        have truthy := isTruthy_of_same same deprecated
        unfold isDeprecated Json.get?
        simp only [there]
        cases other with
        | object _ =>
          cases mark with
          | object fields => exact absurd rfl (plain fields)
          | _ => cases same
        | _ => exact truthy
      | _ => cases same
    | _ => cases found

theorem tagsOfItems_of_same {xs ys : List Json}
    (each : ∀ x ∈ xs, ∀ y, x.same y = true → tagsOf x = tagsOf y)
    (same : Json.sameItems xs ys = true) : tagsOfItems xs = tagsOfItems ys := by
  induction xs generalizing ys with
  | nil =>
    cases ys with
    | nil => rfl
    | cons y ys => cases same
  | cons x xs ih =>
    obtain ⟨here, each⟩ := List.forall_mem_cons.1 each
    cases ys with
    | nil => cases same
    | cons y ys =>
      obtain ⟨first, rest⟩ := Bool.and_eq_true_iff.1 same
      rw [tagsOfItems, tagsOfItems, here y first, ih each rest]

theorem tagsOf_of_same (same : a.same b = true) : tagsOf a = tagsOf b := by
  induction a using Json.induct generalizing b with
  | string s =>
    cases b with
    | string t => rw [LawfulBEq.eq_of_beq (show (s == t) = true from same)]
    | _ => cases same
  | array xs ih =>
    cases b with
    | array ys =>
      rw [tagsOf, tagsOf]
      exact tagsOfItems_of_same (fun x mem _ => ih x mem) same
    | _ => cases same
  | null | bool _ | number _ | object _ _ =>
    cases b with
    | string _ => cases same
    | array _ => cases same
    | _ => rfl

theorem not_isDeprecated_of_same (same : a.same b = true) (kept : isDeprecated b = false) :
    isDeprecated a = false := by
  rw [Bool.eq_false_iff] at kept ⊢
  exact fun deprecated => kept (isDeprecated_of_same same deprecated)

/-- What is the same as a normal value is normal. -/
theorem IsNormal.of_same (same : a.same b = true) (normal : IsNormal table role b) :
    IsNormal table role a := by
  induction normal generalizing a with
  | null role =>
    cases a with
    | null => exact .null role
    | _ => cases same
  | bool role =>
    cases a with
    | bool b => exact .bool role b
    | _ => cases same
  | number role =>
    cases a with
    | number n => exact .number role n
    | _ => cases same
  | string role =>
    cases a with
    | string s => exact .string role s
    | _ => cases same
  | @array role ys kept _ ih =>
    cases a with
    | array xs =>
      have origin : ∀ x ∈ xs, ∃ y ∈ ys, x.same y = true :=
        fun x mem => Json.mem_of_sameItems same mem
      refine .array role (fun x mem => ?_) fun x mem => ?_
      · obtain ⟨y, there, same⟩ := origin x mem
        exact not_isDeprecated_of_same same (kept y there)
      · obtain ⟨y, there, same⟩ := origin x mem
        exact ih y there same
    | _ => cases same
  | @map gs kept _ ih =>
    cases a with
    | object fs =>
      have origin : ∀ f ∈ fs, ∃ g ∈ gs, g.1 = f.1 ∧ f.2.same g.2 = true :=
        fun f mem => Json.mem_of_sameObject same mem
      refine .map (fun f mem => ?_) fun f mem => ?_
      · obtain ⟨g, there, -, same⟩ := origin f mem
        exact not_isDeprecated_of_same same (kept g there)
      · obtain ⟨g, there, -, same⟩ := origin f mem
        exact ih g there same
    | _ => cases same
  | @node gs kept _ generic ih =>
    cases a with
    | object fs =>
      have origin : ∀ f ∈ fs, ∃ g ∈ gs, g.1 = f.1 ∧ f.2.same g.2 = true :=
        fun f mem => Json.mem_of_sameObject same mem
      refine .node (fun f mem => ?_) (fun f mem => ?_) fun f mem isType tag inside => ?_
      · obtain ⟨g, there, key, same⟩ := origin f mem
        have stays := kept g there
        rw [staysField, Bool.or_eq_true, Bool.not_eq_true', key] at stays
        rw [staysField, Bool.or_eq_true, Bool.not_eq_true']
        exact stays.imp_right (not_isDeprecated_of_same same)
      · obtain ⟨g, there, key, same⟩ := origin f mem
        rw [← key]
        exact ih g there same
      · obtain ⟨g, there, key, same⟩ := origin f mem
        rw [tagsOf_of_same same] at inside
        exact generic g there (key.trans isType) tag inside
    | _ => cases same

/-! ## Nothing to report -/

/-- A value of which nothing is left out, and no tag mapped, is normal. -/
theorem isNormal_of_unchanged (keys : DistinctKeys value) (pruned : prunedIn place role value = [])
    (mapped : mappedIn table place role value = []) : IsNormal table role value := by
  induction role, value using inductParts generalizing place with
  | whole role value ih =>
    rw [prunedIn_eq, List.flatMap_eq_nil_iff] at pruned
    rw [mappedIn_eq, List.append_eq_nil_iff, List.flatMap_eq_nil_iff, List.map_eq_nil_iff] at mapped
    obtain ⟨mapped, own⟩ := mapped
    have kept : ∀ part ∈ partsOf role value, part.isDropped = false := by
      intro part mem
      have none := pruned part mem
      split at none
      · cases none
      · next kept => exact Bool.not_eq_true _ ▸ kept
    have each : ∀ part ∈ partsOf role value, IsNormal table part.role part.value := by
      intro part mem
      have nonePruned := pruned part mem
      have noneMapped := mapped part mem
      rw [if_neg (by simp [kept part mem])] at nonePruned noneMapped
      exact ih part mem (distinctKeys_part keys mem) nonePruned noneMapped
    cases value with
    | null => exact .null role
    | bool b => exact .bool role b
    | number n => exact .number role n
    | string s => exact .string role s
    | array items =>
      have part : ∀ item ∈ items, ∃ step, ⟨step, .node, item⟩ ∈ partsOf role (.array items) := by
        intro item mem
        obtain ⟨position, here⟩ := List.mem_iff_getElem?.1 mem
        exact ⟨toString position, List.mem_map.2
          ⟨(item, position), List.mem_zipIdx_iff_getElem?.2 here, rfl⟩⟩
      refine .array role (fun item mem => ?_) fun item mem => ?_
      · obtain ⟨step, there⟩ := part item mem
        simpa [Part.isDropped] using kept _ there
      · obtain ⟨step, there⟩ := part item mem
        exact each _ there
    | object fields =>
      cases role with
      | map =>
        have part : ∀ entry ∈ fields, ⟨entry.1, .node, entry.2⟩ ∈ partsOf .map (.object fields) :=
          fun entry mem => List.mem_map.2 ⟨entry, mem, rfl⟩
        refine .map (fun entry mem => ?_) fun entry mem => ?_
        · simpa [Part.isDropped] using kept _ (part entry mem)
        · exact each _ (part entry mem)
      | node =>
        have part : ∀ field ∈ fields,
            ⟨field.1, roleOf field.1, field.2⟩ ∈ partsOf .node (.object fields) :=
          fun field mem => List.mem_map.2 ⟨field, mem, rfl⟩
        refine .node (fun field mem => ?_) (fun field mem => ?_) fun field mem isType tag inside => ?_
        · have stays := kept _ (part field mem)
          rw [staysField]
          cases named : isSchemaMap field.1 with
          | true => rfl
          | false => simpa [Part.isDropped, roleOf, named] using stays
        · exact each _ (part field mem)
        · have found : fields.lookup "type" = some field.2 :=
            isType ▸ lookup_of_mem (Json.distinctKeys_object.1 keys).1 mem
          rw [tagsIn, ownTags, found] at own
          exact List.filterMap_eq_nil_iff.1 own tag inside

theorem isUnchanged_iff :
    (normalize table schema).report.isUnchanged = true ↔
      prunedIn [] .node schema = [] ∧ mappedIn table [] .node schema = [] := by
  rw [Report.isUnchanged, Bool.and_eq_true, List.isEmpty_iff, beq_iff_eq]
  exact and_congr_right fun _ => List.length_eq_zero_iff

open scoped Classical in
/-- **Normalizing makes the changes that are reported, and no others.** The schema in normal form is
the given one without the places of the report and without the names of deprecated properties among
the required ones, and with the tags of each `type` made generic. If nothing is reported it is the
given schema, and if anything is reported it is another one, whatever the order of its fields. -/
theorem normalize_revises (reachable : table.Reachable) (keys : DistinctKeys schema) :
    let output := (normalize table schema).schema
    let report := (normalize table schema).report
    output = schema.revised (fun place => place ∈ report.pruned ∨ IsStaleName schema place)
        (fun place tag => if IsTag schema place then genericTag table tag else tag) [] ∧
      (report.isUnchanged = true ↔ output = schema) ∧
      (report.isUnchanged = true ↔ schema.same output = true) := by
  intro output report
  have normal : IsNormal table .node output := isNormal_normalIn reachable keys .node
  have kept : report.isUnchanged = true → output = schema := by
    intro unchanged
    obtain ⟨pruned, mapped⟩ := isUnchanged_iff.1 unchanged
    exact (isNormal_of_unchanged keys pruned mapped).normalIn_eq
  have unreported : IsNormal table .node schema → report.isUnchanged = true := fun normal =>
    isUnchanged_iff.2 ⟨normal.prunedIn_eq [], normal.mappedIn_eq []⟩
  refine ⟨(reported_eq keys (.root schema)).symm, ⟨kept, ?_⟩, ⟨?_, ?_⟩⟩
  · intro same
    exact unreported (same ▸ normal)
  · intro unchanged
    rw [kept unchanged]
    exact Json.same_self keys
  · intro same
    exact unreported (normal.of_same same)

/-- A schema with a deprecated property that is required twice, next to an item that is itself
deprecated, and with a tag of the project's own. -/
theorem normalize_revises_outpoint :
    let table : TagTable := ⟨TagTable.builtin.entries ++ [("outpoint", ⟨.text, false⟩)]⟩
    let schema : Json := .object
      [("required", .array [.string "old", .object [("deprecated", .bool true)], .string "id",
          .string "old"]),
        ("properties", .object
          [("old", .object [("deprecated", .bool true)]),
            ("id", .object [("type", .array [.string "outpoint"])]),
            ("type", .string "txid")])]
    let output : Json := .object
      [("required", .array [.string "id"]),
        ("properties", .object
          [("id", .object [("type", .array [.string "string"])]), ("type", .string "txid")])]
    table.Reachable ∧ schema.DistinctKeys ∧ (normalize table schema).schema = output ∧
      (normalize table schema).report.isUnchanged = false ∧ schema.same output = false := by
  intro table schema output
  have added : TagTable.builtin.add "outpoint" .text = .ok table := rfl
  have reachable : table.Reachable := TagTable.Reachable.builtin.add added
  have keys : schema.DistinctKeys := by
    simp [schema]
  have normal : (normalize table schema).schema = output := rfl
  have changed : (normalize table schema).report.isUnchanged = false := by decide
  obtain ⟨-, -, unchanged⟩ := normalize_revises reachable keys
  refine ⟨reachable, keys, normal, changed, ?_⟩
  rw [← normal, ← Bool.not_eq_true, ← unchanged, changed]
  exact Bool.false_ne_true

end Bindery.Schema
