import Bindery.Proofs.Binary64.Quotients
import Bindery.Proofs.Json.Keys

/-!
# Numbers are canonical

Every floating point number that is read is a rounded product or quotient, and so canonical. Values
with no other numbers are `CanonicalNumbers`, and `Json.parse?` gives no others.
-/

namespace Bindery.Json
set_option autoImplicit false

open Binary64 (Canonical)

/-- A whole number, or a canonical floating point number. -/
inductive Number.IsCanonical : Number → Prop
  | int (i : Int) : IsCanonical (.int i)
  | real {x : Binary64} (canonical : Canonical x) : IsCanonical (.real x)

/-- All numbers in a value are canonical. -/
inductive CanonicalNumbers : Json → Prop
  | null : CanonicalNumbers .null
  | bool (b : Bool) : CanonicalNumbers (.bool b)
  | number {n : Number} (canonical : n.IsCanonical) : CanonicalNumbers (.number n)
  | string (s : String) : CanonicalNumbers (.string s)
  | array {items : List Json} (each : ∀ item ∈ items, CanonicalNumbers item) :
      CanonicalNumbers (.array items)
  | object {fields : List (String × Json)} (each : ∀ field ∈ fields, CanonicalNumbers field.2) :
      CanonicalNumbers (.object fields)

attribute [simp] Number.IsCanonical.int CanonicalNumbers.null CanonicalNumbers.bool
  CanonicalNumbers.string

@[simp]
theorem isCanonical_real {x : Binary64} : Number.IsCanonical (.real x) ↔ Canonical x := by
  constructor
  · intro h
    cases h with
    | real canonical => exact canonical
  · exact .real

@[simp]
theorem canonicalNumbers_number {n : Number} : CanonicalNumbers (.number n) ↔ n.IsCanonical := by
  constructor
  · intro h
    cases h with
    | number canonical => exact canonical
  · exact .number

@[simp]
theorem canonicalNumbers_array {items : List Json} :
    CanonicalNumbers (.array items) ↔ ∀ item ∈ items, CanonicalNumbers item := by
  constructor
  · intro h
    cases h with
    | array each => exact each
  · exact .array

@[simp]
theorem canonicalNumbers_object {fields : List (String × Json)} :
    CanonicalNumbers (.object fields) ↔ ∀ field ∈ fields, CanonicalNumbers field.2 := by
  constructor
  · intro h
    cases h with
    | object each => exact each
  · exact .object

/-! ## Scaling by powers of ten -/

theorem powerOfTen_not_zero {n : Nat} (small : n ≤ 308) : (powerOfTen n).isZero = false := by
  revert n
  decide +kernel

theorem canonical_scaleDown {x : Binary64} (h : Canonical x) (n : Nat) :
    Canonical (scaleDown x n) := by
  have divided {x : Binary64} (h : Canonical x) {m : Nat} (small : m ≤ 308) :
      Canonical ((x.div? (powerOfTen m)).getD x) := by
    cases ratio : x.div? (powerOfTen m) with
    | none => exact h
    | some y => exact Binary64.canonical_div? (powerOfTen_not_zero small) ratio
  induction n using Nat.strongRecOn generalizing x with
  | _ n ih =>
    unfold scaleDown
    split
    · next small => exact divided h small
    split
    · exact h
    · exact ih (n - 308) (by omega) (divided h (by decide))

theorem canonical_toReal? {s : Scaled} {negative : Bool} {x : Binary64}
    (rounded : s.toReal? negative = some x) : Canonical x := by
  obtain ⟨y, whole, rounded⟩ := Option.bind_eq_some_iff.1 rounded
  have canonical : Canonical y := Binary64.canonical_ofQuotient? (by decide) whole
  split at rounded
  · unfold scaleUp? at rounded
    split at rounded
    · exact Binary64.canonical_mul? rounded
    split at rounded
    · cases rounded
      exact canonical
    · cases rounded
  · cases rounded
    exact canonical_scaleDown canonical _

/-! ## Reading -/

section Reading

variable {s : Scaled} {negative : Bool} {cs rest : List Char} {n : Number}

theorem isCanonical_withExponent {down : Bool} {ds : List Nat}
    (done : withExponent s negative down ds = some n) : n.IsCanonical := by
  unfold withExponent at done
  simp only at done
  split at done
  · split at done
    · cases done
      exact .real (Binary64.canonical_zero negative)
    · cases done
  · obtain ⟨x, rounded, same⟩ := Option.map_eq_some_iff.1 done
    cases same
    exact .real (canonical_toReal? rounded)

theorem isCanonical_wholeNumber {full : Bool} (done : wholeNumber s full negative = some n) :
    n.IsCanonical := by
  have rounded (done : (s.toReal? negative).map .real = some n) : n.IsCanonical := by
    obtain ⟨x, rounded, same⟩ := Option.map_eq_some_iff.1 done
    cases same
    exact .real (canonical_toReal? rounded)
  unfold wholeNumber at done
  split at done
  · exact rounded done
  split at done
  · cases done
    exact .int _
  split at done
  · exact rounded done
  · cases done
    exact .int _

theorem isCanonical_readExponent {whole : Option Number}
    (canonical : ∀ n, whole = some n → n.IsCanonical)
    (done : readExponent s negative whole cs = some (n, rest)) : n.IsCanonical := by
  have ended (done : whole.map (·, cs) = some (n, rest)) : n.IsCanonical := by
    obtain ⟨m, found, same⟩ := Option.map_eq_some_iff.1 done
    cases same
    exact canonical n found
  unfold readExponent at done
  split at done
  · split at done
    · simp only at done
      split at done
      · cases done
      · obtain ⟨m, found, same⟩ := Option.map_eq_some_iff.1 done
        cases same
        exact isCanonical_withExponent found
    · exact ended done
  · exact ended done

theorem isCanonical_readNumber (done : readNumber negative cs = some (n, rest)) :
    n.IsCanonical := by
  unfold readNumber at done
  split at done
  · cases done
  · cases done
  simp only at done
  split at done
  · split at done
    · cases done
    · refine isCanonical_readExponent (fun m found => ?_) done
      obtain ⟨x, rounded, same⟩ := Option.map_eq_some_iff.1 found
      cases same
      exact .real (canonical_toReal? rounded)
  · exact isCanonical_readExponent (fun m found => isCanonical_wholeNumber found) done

end Reading

theorem kept_canonicalNumbers : Kept CanonicalNumbers where
  null := .null
  bool := .bool
  string := .string
  number done := .number (isCanonical_readNumber done)
  array := .array
  empty := .object (by simp)
  field {fields key value} built new := by
    refine .object fun field mem => ?_
    rcases mem_setField mem with old | same
    · exact canonicalNumbers_object.1 built field old
    · exact same ▸ new

/-- **All numbers in a value that is read are canonical.** -/
theorem parse?_canonicalNumbers {text : String} {value : Json} (done : parse? text = some value) :
    CanonicalNumbers value :=
  kept_canonicalNumbers.of_parse? done

end Bindery.Json
