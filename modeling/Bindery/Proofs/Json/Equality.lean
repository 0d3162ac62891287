import Bindery.Proofs.Json.Same
import Mathlib.Data.Rat.Defs
import Mathlib.Algebra.Field.Rat

/-!
# Equal values

Two numbers are equal if they have one value, however they are written, and objects are equal
whatever the order of their fields. Values that count as one literal are equal.
-/

namespace Bindery
set_option autoImplicit false

/-- The exact value of a floating point number. -/
def Binary64.value (x : Binary64) : ℚ :=
  (if x.negative then -1 else 1) * x.significand * (2 : ℚ) ^ x.exponent

namespace Json

/-- The exact value of a number. -/
def Number.value : Number → ℚ
  | .int i => i
  | .real x => x.value

mutual

/-- Two values are equal. -/
def Equal : Json → Json → Prop
  | .null, .null => True
  | .bool a, .bool b => a = b
  | .number m, .number n => m.value = n.value
  | .string s, .string t => s = t
  | .array xs, .array ys => EqualItems xs ys
  | .object fs, .object gs => fs.length = gs.length ∧ EqualFields fs gs
  | _, _ => False
termination_by structural value => value

/-- Two lists have equal items. -/
def EqualItems : List Json → List Json → Prop
  | [], [] => True
  | x :: xs, y :: ys => Equal x y ∧ EqualItems xs ys
  | _, _ => False
termination_by structural items => items

/-- Every field of the first list has an equal value in the second. -/
def EqualFields : List (String × Json) → List (String × Json) → Prop
  | [], _ => True
  | (key, value) :: rest, fields =>
    (∃ other, fields.lookup key = some other ∧ Equal value other) ∧ EqualFields rest fields
termination_by structural fields => fields

end

theorem Number.value_of_same {m n : Number} (same : m.same n = true) : m.value = n.value := by
  rcases same_iff.1 same with rfl | ⟨x, y, rfl, rfl, zero, zero'⟩
  · rfl
  · simp only [Binary64.isZero, beq_iff_eq] at zero zero'
    simp [Number.value, Binary64.value, zero, zero']

theorem EqualFields.of_lookup {fields others : List (String × Json)}
    (equal : EqualFields fields others) {key : String} {value : Json}
    (found : fields.lookup key = some value) :
    ∃ other, others.lookup key = some other ∧ Equal value other := by
  induction fields with
  | nil => cases found
  | cons field rest ih =>
    obtain ⟨k, v⟩ := field
    rw [List.lookup_cons] at found
    split at found
    · next same =>
      cases found
      rw [LawfulBEq.eq_of_beq same]
      exact equal.1
    · exact ih equal.2 found

theorem equalItems_of_same {xs ys zs : List Json}
    (each : ∀ x ∈ xs, ∀ b c, x.same b = true → Equal b c → Equal x c)
    (same : sameItems xs ys = true) (equal : EqualItems ys zs) : EqualItems xs zs := by
  induction xs generalizing ys zs with
  | nil =>
    cases ys with
    | nil => exact equal
    | cons y ys => cases same
  | cons x xs ih =>
    obtain ⟨here, each⟩ := List.forall_mem_cons.1 each
    cases ys with
    | nil => cases same
    | cons y ys =>
      cases zs with
      | nil => cases equal
      | cons z zs =>
        obtain ⟨first, rest⟩ := Bool.and_eq_true_iff.1 same
        exact ⟨here y z first equal.1, ih each rest equal.2⟩

theorem equalFields_of_same {fs gs hs : List (String × Json)}
    (each : ∀ f ∈ fs, ∀ b c, f.2.same b = true → Equal b c → Equal f.2 c)
    (same : sameFields fs gs = true) (equal : EqualFields gs hs) : EqualFields fs hs := by
  induction fs with
  | nil => trivial
  | cons f fs ih =>
    obtain ⟨here, each⟩ := List.forall_mem_cons.1 each
    obtain ⟨first, rest⟩ := Bool.and_eq_true_iff.1 same
    split at first
    · next other found =>
      obtain ⟨last, there, equal'⟩ := equal.of_lookup found
      exact ⟨⟨last, there, here other last first equal'⟩, ih each rest⟩
    · cases first

/-- What equals a value equals those that count as one literal with it. -/
theorem Equal.of_same {a b c : Json} (same : a.same b = true) (equal : Equal b c) : Equal a c := by
  induction a using Json.induct generalizing b c with
  | null =>
    cases b with
    | null => exact equal
    | _ => cases same
  | bool x =>
    cases b with
    | bool y =>
      rw [LawfulBEq.eq_of_beq (show (x == y) = true from same)]
      exact equal
    | _ => cases same
  | string s =>
    cases b with
    | string t =>
      rw [LawfulBEq.eq_of_beq (show (s == t) = true from same)]
      exact equal
    | _ => cases same
  | number m =>
    cases b with
    | number n =>
      cases c with
      | number k => exact (Number.value_of_same same).trans equal
      | _ => cases equal
    | _ => cases same
  | array xs ih =>
    cases b with
    | array ys =>
      cases c with
      | array zs => exact equalItems_of_same (fun x mem _ _ => ih x mem) same equal
      | _ => cases equal
    | _ => cases same
  | object fs ih =>
    cases b with
    | object gs =>
      cases c with
      | object hs =>
        obtain ⟨length, same⟩ := Bool.and_eq_true_iff.1 same
        exact ⟨(LawfulBEq.eq_of_beq length).trans equal.1,
          equalFields_of_same (fun f mem _ _ => ih f mem) same equal.2⟩
      | _ => cases equal
    | _ => cases same

end Json

end Bindery
