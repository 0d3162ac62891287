import Bindery.Proofs.Distinct
import Bindery.Proofs.Json.Reading

/-!
# Keys stand once

No object that is read holds a key twice: a key that is written again replaces its value. Values
with this property are `DistinctKeys`, and `Json.parse?` gives no others.
-/

namespace Bindery.Json
set_option autoImplicit false

/-- Induction on values, with the items of an array and the values of an object's fields. -/
@[elab_as_elim]
theorem induct {motive : Json → Prop} (null : motive .null) (bool : ∀ b, motive (.bool b))
    (number : ∀ n, motive (.number n)) (string : ∀ s, motive (.string s))
    (array : ∀ items, (∀ item ∈ items, motive item) → motive (.array items))
    (object : ∀ fields, (∀ field ∈ fields, motive field.2) → motive (.object fields))
    (value : Json) : motive value :=
  match value with
  | .null => null
  | .bool b => bool b
  | .number n => number n
  | .string s => string s
  | .array items => array items fun item _ => induct null bool number string array object item
  | .object fields =>
    object fields fun field _ => induct null bool number string array object field.2
termination_by value
decreasing_by
  · next mem =>
    have := List.sizeOf_lt_of_mem mem
    simp
    omega
  · next mem =>
    have smaller := List.sizeOf_lt_of_mem mem
    obtain ⟨key, value⟩ := field
    simp at smaller ⊢
    omega

/-- No object in a value holds a key twice. -/
inductive DistinctKeys : Json → Prop
  | null : DistinctKeys .null
  | bool (b : Bool) : DistinctKeys (.bool b)
  | number (n : Number) : DistinctKeys (.number n)
  | string (s : String) : DistinctKeys (.string s)
  | array {items : List Json} (each : ∀ item ∈ items, DistinctKeys item) :
      DistinctKeys (.array items)
  | object {fields : List (String × Json)} (keys : (fields.map (·.1)).Nodup)
      (each : ∀ field ∈ fields, DistinctKeys field.2) : DistinctKeys (.object fields)

attribute [simp] DistinctKeys.null DistinctKeys.bool DistinctKeys.number DistinctKeys.string

@[simp]
theorem distinctKeys_array {items : List Json} :
    DistinctKeys (.array items) ↔ ∀ item ∈ items, DistinctKeys item := by
  constructor
  · intro h
    cases h with
    | array each => exact each
  · exact .array

@[simp]
theorem distinctKeys_object {fields : List (String × Json)} :
    DistinctKeys (.object fields) ↔
      (fields.map (·.1)).Nodup ∧ ∀ field ∈ fields, DistinctKeys field.2 := by
  constructor
  · intro h
    cases h with
    | object keys each => exact ⟨keys, each⟩
  · exact fun h => .object h.1 h.2

/-! ## Setting a field -/

section SetField

variable {key : String} {value : Json} {fields : List (String × Json)}

theorem keys_setField :
    (setField key value fields).map (·.1) =
      if key ∈ fields.map (·.1) then fields.map (·.1) else fields.map (·.1) ++ [key] := by
  induction fields with
  | nil => simp [setField]
  | cons field rest ih =>
    obtain ⟨k, v⟩ := field
    unfold setField
    by_cases same : k = key
    · simp [same]
    · rw [if_neg same, List.map_cons, ih]
      by_cases old : key ∈ rest.map (·.1)
      · simp [old]
      · simp [old, Ne.symm same]

theorem mem_setField {field : String × Json} (mem : field ∈ setField key value fields) :
    field ∈ fields ∨ field.2 = value := by
  induction fields with
  | nil =>
    rw [setField, List.mem_singleton] at mem
    exact Or.inr (congrArg Prod.snd mem)
  | cons head rest ih =>
    obtain ⟨k, v⟩ := head
    unfold setField at mem
    split at mem
    · rcases List.mem_cons.1 mem with here | later
      · exact Or.inr (congrArg Prod.snd here)
      · exact Or.inl (List.mem_cons_of_mem _ later)
    · rcases List.mem_cons.1 mem with here | later
      · exact Or.inl (here ▸ List.mem_cons_self)
      · exact (ih later).imp_left (List.mem_cons_of_mem _)

/-- A field that is set stands once. -/
theorem DistinctKeys.setField (h : DistinctKeys (.object fields)) (hv : DistinctKeys value) :
    DistinctKeys (.object (setField key value fields)) := by
  cases h with
  | object keys each =>
    refine .object ?_ fun field mem => ?_
    · rw [keys_setField]
      split
      · exact keys
      · next fresh => exact nodup_snoc keys fresh
    · rcases mem_setField mem with old | new
      · exact each field old
      · exact new ▸ hv

end SetField

/-! ## Reading -/

theorem kept_distinctKeys : Kept DistinctKeys where
  null := .null
  bool := .bool
  string := .string
  number _ := .number _
  array := .array
  empty := .object (by simp) (by simp)
  field := DistinctKeys.setField

/-- **A value that is read has distinct keys.** -/
theorem parse?_distinctKeys {text : String} {value : Json} (done : parse? text = some value) :
    DistinctKeys value :=
  kept_distinctKeys.of_parse? done

end Bindery.Json
