import Bindery.Json.Pointer
import Bindery.Proofs.Json.Depth
import Bindery.Proofs.Schema.NormalForm

/-!
# Parts of a schema

The parts of a value are the items of an array and the values of an object's fields, each with the
step that leads to it and with its role. A part with the role of a node is left out if it is
deprecated; a map from names to schemas never is, though its entries are nodes again. `partAt?`
follows steps from part to part, so it knows the role of every place of a schema.
-/

namespace Bindery.Schema
set_option autoImplicit false

open Json (DistinctKeys Pointer)

/-- A part of a value: the step that leads to it, its role, and itself. -/
structure Part where
  step : String
  role : Role
  value : Json

/-- Whether normalizing leaves a part out. -/
def Part.isDropped (part : Part) : Bool :=
  part.role = .node && isDeprecated part.value

/-- The parts of a value. -/
def partsOf : Role → Json → List Part
  | _, .array items => items.zipIdx.map fun item => ⟨toString item.2, .node, item.1⟩
  | .node, .object fields => fields.map fun field => ⟨field.1, roleOf field.1, field.2⟩
  | .map, .object entries => entries.map fun entry => ⟨entry.1, .node, entry.2⟩
  | _, _ => []

/-- The part with a step. -/
def part? (role : Role) (value : Json) (step : String) : Option Part :=
  (partsOf role value).find? (·.step = step)

/-- The role and the value at a place inside a value. -/
def partAt? (role : Role) (value : Json) : Pointer → Option (Role × Json)
  | [] => some (role, value)
  | step :: place => (part? role value step).bind fun part => partAt? part.role part.value place

variable {role : Role} {value : Json} {part : Part} {step : String} {place : Pointer}

/-! ## Parts are smaller -/

theorem depth_part_lt (mem : part ∈ partsOf role value) : part.value.depth < value.depth := by
  cases value with
  | array items =>
    obtain ⟨item, there, rfl⟩ := List.mem_map.1 mem
    exact Json.depth_item_lt (List.fst_mem_of_mem_zipIdx there)
  | object fields =>
    cases role with
    | node =>
      obtain ⟨field, there, rfl⟩ := List.mem_map.1 mem
      exact Json.depth_field_lt there
    | map =>
      obtain ⟨entry, there, rfl⟩ := List.mem_map.1 mem
      exact Json.depth_field_lt there
  | _ => cases mem

/-- Induction on values in their roles: what holds of a value's parts holds of it. -/
@[elab_as_elim]
theorem inductParts {motive : Role → Json → Prop}
    (whole : ∀ role value, (∀ part ∈ partsOf role value, motive part.role part.value) →
      motive role value) (role : Role) (value : Json) : motive role value := by
  induction value using Json.inductDepth generalizing role with
  | step value ih => exact whole role value fun part mem => ih part.value (depth_part_lt mem) part.role

/-! ## Steps tell parts apart -/

theorem toString_injective : Function.Injective (toString : Nat → String) := fun m n same => by
  have digits : Nat.toDigits 10 m = Nat.toDigits 10 n := String.ofList_injective same
  rw [← Nat.ofDigitChars_ten_toDigits (n := m), digits, Nat.ofDigitChars_ten_toDigits]

theorem nodup_steps (role : Role) (keys : DistinctKeys value) :
    ((partsOf role value).map (·.step)).Nodup := by
  cases value with
  | array items =>
    have steps : (partsOf role (.array items)).map (·.step) =
        (items.zipIdx.map Prod.snd).map toString := by
      rw [partsOf, List.map_map, List.map_map]
      rfl
    rw [steps, List.zipIdx_map_snd]
    exact (List.nodup_range' 1).map toString_injective
  | object fields =>
    have distinct := (Json.distinctKeys_object.1 keys).1
    cases role <;> simpa [partsOf, Function.comp_def] using distinct
  | _ => simp [partsOf]

theorem distinctKeys_part (keys : DistinctKeys value) (mem : part ∈ partsOf role value) :
    DistinctKeys part.value := by
  cases value with
  | array items =>
    obtain ⟨item, there, rfl⟩ := List.mem_map.1 mem
    exact Json.distinctKeys_array.1 keys item.1 (List.fst_mem_of_mem_zipIdx there)
  | object fields =>
    have each := (Json.distinctKeys_object.1 keys).2
    cases role with
    | node =>
      obtain ⟨field, there, rfl⟩ := List.mem_map.1 mem
      exact each field there
    | map =>
      obtain ⟨entry, there, rfl⟩ := List.mem_map.1 mem
      exact each entry there
  | _ => cases mem

theorem mem_of_part? (found : part? role value step = some part) :
    part ∈ partsOf role value ∧ part.step = step := by
  refine ⟨List.mem_of_find?_eq_some found, ?_⟩
  simpa using List.find?_some found

theorem part?_of_mem (keys : DistinctKeys value) (mem : part ∈ partsOf role value) :
    part? role value part.step = some part := by
  obtain ⟨other, found⟩ : ∃ other, part? role value part.step = some other := by
    rw [← Option.isSome_iff_exists, part?, List.find?_isSome]
    exact ⟨part, mem, by simp⟩
  obtain ⟨there, same⟩ := mem_of_part? found
  rw [found, List.inj_on_of_nodup_map (nodup_steps role keys) there mem same]

/-! ## Places -/

theorem partAt?_cons (found : part? role value step = some part) (place : Pointer) :
    partAt? role value (step :: place) = partAt? part.role part.value place := by
  rw [partAt?, found, Option.bind_some]

theorem partAt?_append (role : Role) (value : Json) (place rest : Pointer) :
    partAt? role value (place ++ rest) =
      (partAt? role value place).bind fun part => partAt? part.1 part.2 rest := by
  induction place generalizing role value with
  | nil => rfl
  | cons step place ih =>
    rw [List.cons_append, partAt?, partAt?, Option.bind_assoc]
    exact Option.bind_congr fun part _ => ih part.role part.value

theorem step?_eq (role : Role) (value : Json) (step : String) :
    value.step? step = (part? role value step).map (·.value) := by
  have field : ∀ (fields : List (String × Json)) (roles : String → Role),
      fields.lookup step =
        ((fields.map fun f => (⟨f.1, roles f.1, f.2⟩ : Part)).find? (·.step = step)).map
          (·.value) := by
    intro fields roles
    induction fields with
    | nil => rfl
    | cons f rest ih =>
      rw [List.lookup_cons, List.map_cons, List.find?_cons]
      by_cases same : f.1 = step
      · simp [same]
      · simp [same, beq_eq_false_iff_ne.2 (Ne.symm same), ih]
  cases value with
  | array items =>
    simp [Json.step?, part?, partsOf, List.find?_map, Function.comp_def]
  | object fields =>
    cases role with
    | node => exact field fields roleOf
    | map => exact field fields fun _ => .node
  | _ => rfl

theorem step?_item (items : List Json) (position : Nat) :
    (Json.array items).step? (toString position) = items[position]? := by
  change (items.zipIdx.find? fun item => toString item.2 = toString position).map (·.1) = _
  cases found : items.zipIdx.find? fun item => toString item.2 = toString position with
  | some item =>
    have same : toString item.2 = toString position := by simpa using List.find?_some found
    rw [Option.map_some, ← toString_injective same]
    exact (List.mem_zipIdx_iff_getElem?.1 (List.mem_of_find?_eq_some found)).symm
  | none =>
    refine (Option.eq_none_iff_forall_ne_some.2 fun item here => ?_).symm
    have other := List.find?_eq_none.1 found (item, position) (List.mem_zipIdx_iff_getElem?.2 here)
    exact other (decide_eq_true rfl)

/-- A part at a place is what stands there, and where anything stands there is a part. -/
theorem at?_eq (role : Role) (value : Json) (place : Pointer) :
    value.at? place = (partAt? role value place).map (·.2) := by
  induction place generalizing role value with
  | nil => rfl
  | cons step place ih =>
    have first : value.at? (step :: place) = (value.step? step).bind (·.at? place) := rfl
    rw [first, step?_eq role, partAt?]
    cases part? role value step with
    | none => rfl
    | some part => exact ih part.role part.value

end Bindery.Schema
