import Bindery.Proofs.Json.Keys
import Mathlib.Data.List.Perm.Subperm

/-!
# Values that are the same

That two values are the same, the order of fields aside, is an equivalence. Two values that are the
same have the same parts, each under its own key or position.
-/

namespace Bindery.Json
set_option autoImplicit false

variable {a b : Json} {xs ys : List Json} {fs gs : List (String × Json)}

/-- Each item of a list has a counterpart in a list that is the same. -/
theorem mem_of_sameItems (same : sameItems xs ys = true) {x : Json} (mem : x ∈ xs) :
    ∃ y ∈ ys, x.same y = true := by
  induction xs generalizing ys with
  | nil => cases mem
  | cons first xs ih =>
    cases ys with
    | nil => cases same
    | cons y ys =>
      obtain ⟨here, rest⟩ := Bool.and_eq_true_iff.1 same
      rcases List.mem_cons.1 mem with rfl | mem
      · exact ⟨y, List.mem_cons_self, here⟩
      · obtain ⟨y, there, same⟩ := ih rest mem
        exact ⟨y, List.mem_cons_of_mem _ there, same⟩

theorem lookup_of_sameFields (same : sameFields fs gs = true) {field : String × Json}
    (mem : field ∈ fs) : ∃ other, gs.lookup field.1 = some other ∧ field.2.same other = true := by
  induction fs with
  | nil => cases mem
  | cons f fs ih =>
    obtain ⟨first, rest⟩ := Bool.and_eq_true_iff.1 same
    rcases List.mem_cons.1 mem with rfl | mem
    · split at first
      · next other found => exact ⟨other, found, first⟩
      · cases first
    · exact ih rest mem

/-- Each field of an object has a counterpart in an object that is the same. -/
theorem mem_of_sameObject (same : (object fs).same (.object gs) = true) {field : String × Json}
    (mem : field ∈ fs) : ∃ other ∈ gs, other.1 = field.1 ∧ field.2.same other.2 = true := by
  obtain ⟨-, same⟩ := Bool.and_eq_true_iff.1 same
  obtain ⟨other, found, same⟩ := lookup_of_sameFields same mem
  exact ⟨(field.1, other), mem_of_lookup found, rfl, same⟩

theorem sameItems_self (each : ∀ x ∈ xs, x.same x = true) : sameItems xs xs = true := by
  induction xs with
  | nil => rfl
  | cons x xs ih =>
    obtain ⟨here, each⟩ := List.forall_mem_cons.1 each
    rw [sameItems, here, ih each, Bool.and_self]

theorem sameFields_of_lookup
    (each : ∀ f ∈ fs, ∃ other, gs.lookup f.1 = some other ∧ f.2.same other = true) :
    sameFields fs gs = true := by
  induction fs with
  | nil => rfl
  | cons f fs ih =>
    obtain ⟨⟨other, found, same⟩, each⟩ := List.forall_mem_cons.1 each
    rw [sameFields, found, ih each, Bool.and_true]
    exact same

/-- A value is the same as itself. -/
theorem same_self (keys : DistinctKeys a) : a.same a = true := by
  induction keys with
  | null => rfl
  | bool b => exact beq_self_eq_true b
  | number n =>
    cases n with
    | int i => exact beq_self_eq_true i
    | real x => exact Bool.or_eq_true_iff.2 (Or.inl (beq_self_eq_true x))
  | string s => exact beq_self_eq_true s
  | array _ ih => exact sameItems_self ih
  | @object fields distinct _ ih =>
    rw [same, beq_self_eq_true, Bool.true_and]
    exact sameFields_of_lookup fun f mem => ⟨f.2, lookup_of_mem distinct mem, ih f mem⟩

/-! ## An equivalence -/

/-- Two numbers are the same if they are equal, or zeros of either sign. -/
theorem Number.same_iff {m n : Number} : m.same n = true ↔
    m = n ∨ ∃ x y, m = .real x ∧ n = .real y ∧ x.isZero = true ∧ y.isZero = true := by
  cases m <;> cases n <;> simp [Number.same, Binary64.same]

theorem Number.same_symm {m n : Number} (same : m.same n = true) : n.same m = true := by
  rw [same_iff] at same ⊢
  rcases same with rfl | ⟨x, y, rfl, rfl, zero, zero'⟩
  · exact Or.inl rfl
  · exact Or.inr ⟨y, x, rfl, rfl, zero', zero⟩

theorem Number.same_trans {k m n : Number} (first : k.same m = true) (second : m.same n = true) :
    k.same n = true := by
  rw [same_iff] at first second ⊢
  rcases first with rfl | ⟨x, y, rfl, rfl, zero, zero'⟩
  · exact second
  · rcases second with rfl | ⟨_, z, _, rfl, -, zero'⟩
    · exact Or.inr ⟨x, y, rfl, rfl, zero, zero'⟩
    · exact Or.inr ⟨x, z, rfl, rfl, zero, zero'⟩

theorem sameItems_trans {xs ys zs : List Json}
    (each : ∀ x ∈ xs, ∀ y z, x.same y = true → y.same z = true → x.same z = true)
    (first : sameItems xs ys = true) (second : sameItems ys zs = true) :
    sameItems xs zs = true := by
  induction xs generalizing ys zs with
  | nil =>
    cases ys with
    | nil => exact second
    | cons y ys => cases first
  | cons x xs ih =>
    obtain ⟨here, each⟩ := List.forall_mem_cons.1 each
    cases ys with
    | nil => cases first
    | cons y ys =>
      cases zs with
      | nil => cases second
      | cons z zs =>
        obtain ⟨one, first⟩ := Bool.and_eq_true_iff.1 first
        obtain ⟨two, second⟩ := Bool.and_eq_true_iff.1 second
        exact Bool.and_eq_true_iff.2 ⟨here y z one two, ih each first second⟩

theorem same_trans {a b c : Json} (first : a.same b = true) (second : b.same c = true) :
    a.same c = true := by
  induction a using Json.induct generalizing b c with
  | null =>
    cases b with
    | null => exact second
    | _ => cases first
  | bool x =>
    cases b with
    | bool y => exact LawfulBEq.eq_of_beq (show (x == y) = true from first) ▸ second
    | _ => cases first
  | string s =>
    cases b with
    | string t => exact LawfulBEq.eq_of_beq (show (s == t) = true from first) ▸ second
    | _ => cases first
  | number m =>
    cases b with
    | number n =>
      cases c with
      | number k => exact Number.same_trans first second
      | _ => cases second
    | _ => cases first
  | array xs ih =>
    cases b with
    | array ys =>
      cases c with
      | array zs => exact sameItems_trans (fun x mem _ _ => ih x mem) first second
      | _ => cases second
    | _ => cases first
  | object fs ih =>
    cases b with
    | object gs =>
      cases c with
      | object hs =>
        obtain ⟨length, first⟩ := Bool.and_eq_true_iff.1 first
        obtain ⟨length', second⟩ := Bool.and_eq_true_iff.1 second
        refine Bool.and_eq_true_iff.2 ⟨BEq.trans length length', sameFields_of_lookup ?_⟩
        intro f mem
        obtain ⟨other, found, one⟩ := lookup_of_sameFields first mem
        obtain ⟨last, there, two⟩ := lookup_of_sameFields second (mem_of_lookup found)
        exact ⟨last, there, ih f mem one two⟩
      | _ => cases second
    | _ => cases first

theorem sameItems_symm {xs ys : List Json}
    (each : ∀ x ∈ xs, ∀ y, x.same y = true → y.same x = true) (same : sameItems xs ys = true) :
    sameItems ys xs = true := by
  induction xs generalizing ys with
  | nil =>
    cases ys with
    | nil => rfl
    | cons y ys => cases same
  | cons x xs ih =>
    obtain ⟨here, each⟩ := List.forall_mem_cons.1 each
    cases ys with
    | nil => cases same
    | cons y ys =>
      obtain ⟨first, rest⟩ := Bool.and_eq_true_iff.1 same
      exact Bool.and_eq_true_iff.2 ⟨here y first, ih each rest⟩

/-- Fields that are as many and have counterparts in others are their counterparts. -/
theorem sameFields_symm (distinct : (fs.map (·.1)).Nodup) (length : fs.length = gs.length)
    (each : ∀ f ∈ fs, ∀ b, f.2.same b = true → b.same f.2 = true)
    (same : sameFields fs gs = true) : sameFields gs fs = true := by
  have keys : (fs.map (·.1)).Perm (gs.map (·.1)) := by
    have among : fs.map (·.1) ⊆ gs.map (·.1) := by
      intro key mem
      obtain ⟨f, there, rfl⟩ := List.mem_map.1 mem
      obtain ⟨other, found, -⟩ := lookup_of_sameFields same there
      exact mem_keys_of_lookup found
    exact (List.subperm_of_subset distinct among).perm_of_length_le (by simp [length])
  refine sameFields_of_lookup fun g mem => ?_
  obtain ⟨f, there, key⟩ := List.mem_map.1 (keys.mem_iff.2 (List.mem_map_of_mem mem))
  obtain ⟨other, found, same⟩ := lookup_of_sameFields same there
  rw [key, lookup_of_mem (keys.nodup_iff.1 distinct) mem] at found
  cases found
  exact ⟨f.2, key ▸ lookup_of_mem distinct there, each f there g.2 same⟩

theorem same_symm (keys : DistinctKeys a) (same : a.same b = true) : b.same a = true := by
  induction keys generalizing b with
  | null =>
    cases b with
    | null => rfl
    | _ => cases same
  | bool x =>
    cases b with
    | bool y => exact BEq.symm (show (x == y) = true from same)
    | _ => cases same
  | number m =>
    cases b with
    | number n => exact Number.same_symm same
    | _ => cases same
  | string s =>
    cases b with
    | string t => exact BEq.symm (show (s == t) = true from same)
    | _ => cases same
  | array _ ih =>
    cases b with
    | array ys => exact sameItems_symm (fun x mem _ => ih x mem) same
    | _ => cases same
  | object distinct _ ih =>
    cases b with
    | object gs =>
      obtain ⟨length, same⟩ := Bool.and_eq_true_iff.1 same
      exact Bool.and_eq_true_iff.2 ⟨BEq.symm length,
        sameFields_symm distinct (LawfulBEq.eq_of_beq length) (fun f mem _ => ih f mem) same⟩
    | _ => cases same

end Bindery.Json
