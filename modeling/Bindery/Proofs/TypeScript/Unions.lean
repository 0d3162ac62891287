import Bindery.Proofs.Json.Same
import Bindery.Proofs.TypeScript.Inhabitants

/-!
# Unions as sets

A union keeps, of the types that are alike, the first. So its members are a set that is filled from
left to right: what is present changes nothing, and a set that is filled from another set has what it
would have if filled from all the types of the other.
-/

namespace Bindery.TypeScript
set_option autoImplicit false

namespace TypeExpr

/-! ## Alike types -/

theorem sameMembers_trans {ss ts us : List TypeExpr}
    (each : ∀ s ∈ ss, ∀ t u, s.same t = true → t.same u = true → s.same u = true)
    (first : sameMembers ss ts = true) (second : sameMembers ts us = true) :
    sameMembers ss us = true := by
  induction ss generalizing ts us with
  | nil =>
    cases ts with
    | nil => exact second
    | cons t ts => cases first
  | cons s ss ih =>
    obtain ⟨here, each⟩ := List.forall_mem_cons.1 each
    cases ts with
    | nil => cases first
    | cons t ts =>
      cases us with
      | nil => cases second
      | cons u us =>
        obtain ⟨one, first⟩ := Bool.and_eq_true_iff.1 first
        obtain ⟨two, second⟩ := Bool.and_eq_true_iff.1 second
        exact Bool.and_eq_true_iff.2 ⟨here t u one two, ih each first second⟩

theorem sameFields_cons {f g : Field} {fs gs : List Field} :
    sameFields (f :: fs) (g :: gs) = true ↔
      f.1 = g.1 ∧ f.2.same g.2 = true ∧ sameFields fs gs = true := by
  rw [sameFields, Bool.and_eq_true, Bool.and_eq_true, beq_iff_eq, and_assoc]

theorem sameFields_trans {fs gs hs : List Field}
    (each : ∀ f ∈ fs, ∀ t u, f.2.same t = true → t.same u = true → f.2.same u = true)
    (first : sameFields fs gs = true) (second : sameFields gs hs = true) :
    sameFields fs hs = true := by
  induction fs generalizing gs hs with
  | nil =>
    cases gs with
    | nil => exact second
    | cons g gs => cases first
  | cons f fs ih =>
    obtain ⟨here, each⟩ := List.forall_mem_cons.1 each
    cases gs with
    | nil => cases first
    | cons g gs =>
      cases hs with
      | nil => cases second
      | cons h hs =>
        obtain ⟨head, one, first⟩ := sameFields_cons.1 first
        obtain ⟨head', two, second⟩ := sameFields_cons.1 second
        exact sameFields_cons.2 ⟨head.trans head', here g.2 h.2 one two, ih each first second⟩

theorem same_trans {s t u : TypeExpr} (first : s.same t = true) (second : t.same u = true) :
    s.same u = true := by
  induction s using TypeExpr.induct generalizing t u with
  | raw text =>
    cases t with
    | raw other => exact LawfulBEq.eq_of_beq (show (text == other) = true from first) ▸ second
    | _ => cases first
  | literal value =>
    cases t with
    | literal other =>
      cases u with
      | literal last => exact Json.same_trans first second
      | _ => cases second
    | _ => cases first
  | array element ih =>
    cases t with
    | array other =>
      cases u with
      | array last => exact ih first second
      | _ => cases second
    | _ => cases first
  | union members ih =>
    cases t with
    | union others =>
      cases u with
      | union lasts => exact sameMembers_trans (fun s mem _ _ => ih s mem) first second
      | _ => cases second
    | _ => cases first
  | object fields ih =>
    cases t with
    | object others =>
      cases u with
      | object lasts => exact sameFields_trans (fun f mem _ _ => ih f mem) first second
      | _ => cases second
    | _ => cases first
  | record value ih =>
    cases t with
    | record other =>
      cases u with
      | record last => exact ih first second
      | _ => cases second
    | _ => cases first

theorem sameMembers_self {ts : List TypeExpr} (each : ∀ t ∈ ts, t.same t = true) :
    sameMembers ts ts = true := by
  induction ts with
  | nil => rfl
  | cons t ts ih =>
    obtain ⟨here, each⟩ := List.forall_mem_cons.1 each
    exact Bool.and_eq_true_iff.2 ⟨here, ih each⟩

theorem sameFields_self {fs : List Field} (each : ∀ f ∈ fs, f.2.same f.2 = true) :
    sameFields fs fs = true := by
  induction fs with
  | nil => rfl
  | cons f fs ih =>
    obtain ⟨here, each⟩ := List.forall_mem_cons.1 each
    exact sameFields_cons.2 ⟨rfl, here, ih each⟩

theorem sameMembers_symm {ss ts : List TypeExpr}
    (each : ∀ s ∈ ss, ∀ t, s.same t = true → t.same s = true)
    (same : sameMembers ss ts = true) : sameMembers ts ss = true := by
  induction ss generalizing ts with
  | nil =>
    cases ts with
    | nil => rfl
    | cons t ts => cases same
  | cons s ss ih =>
    obtain ⟨here, each⟩ := List.forall_mem_cons.1 each
    cases ts with
    | nil => cases same
    | cons t ts =>
      obtain ⟨first, rest⟩ := Bool.and_eq_true_iff.1 same
      exact Bool.and_eq_true_iff.2 ⟨here t first, ih each rest⟩

theorem sameFields_symm {fs gs : List Field}
    (each : ∀ f ∈ fs, ∀ t, f.2.same t = true → t.same f.2 = true)
    (same : sameFields fs gs = true) : sameFields gs fs = true := by
  induction fs generalizing gs with
  | nil =>
    cases gs with
    | nil => rfl
    | cons g gs => cases same
  | cons f fs ih =>
    obtain ⟨here, each⟩ := List.forall_mem_cons.1 each
    cases gs with
    | nil => cases same
    | cons g gs =>
      obtain ⟨head, first, rest⟩ := sameFields_cons.1 same
      exact sameFields_cons.2 ⟨head.symm, here g.2 first, ih each rest⟩

theorem exists_of_sameMembers {ss ts : List TypeExpr} (same : sameMembers ss ts = true)
    {t : TypeExpr} (mem : t ∈ ts) : ∃ s ∈ ss, s.same t = true := by
  induction ss generalizing ts with
  | nil =>
    cases ts with
    | nil => cases mem
    | cons _ _ => cases same
  | cons s ss ih =>
    cases ts with
    | nil => cases same
    | cons first ts =>
      obtain ⟨here, same⟩ := Bool.and_eq_true_iff.1 same
      rcases List.mem_cons.1 mem with rfl | mem
      · exact ⟨s, List.mem_cons_self, here⟩
      · obtain ⟨s, there, alike⟩ := ih same mem
        exact ⟨s, List.mem_cons_of_mem _ there, alike⟩

/-- What a type brings into a union, a type that is alike brings as well. -/
theorem exists_member_of_same {s t member : TypeExpr} (same : s.same t = true)
    (mem : member ∈ t.members) : ∃ old ∈ s.members, old.same member = true := by
  cases s with
  | union ss =>
    cases t with
    | union ts => exact exists_of_sameMembers same mem
    | _ => cases same
  | _ =>
    cases t with
    | union ts => cases same
    | _ =>
      obtain rfl := List.mem_singleton.1 mem
      exact ⟨_, List.mem_singleton_self _, same⟩

/-! ## Filling a set -/

section Filling

variable {seen known types : List TypeExpr} {type added : TypeExpr}

/-- A list has a type that is alike. -/
def Present (seen : List TypeExpr) (type : TypeExpr) : Prop :=
  ∃ old ∈ seen, old.same type = true

theorem insertNew_of_present (here : Present seen type) : insertNew seen type = seen := by
  rw [insertNew, if_pos]
  simpa [Present] using here

theorem insertNew_of_not_present (none : ¬Present seen type) :
    insertNew seen type = seen ++ [type] := by
  rw [insertNew, if_neg]
  simpa [Present] using none

theorem mem_insertNew (mem : type ∈ insertNew seen added) : type ∈ seen ∨ type = added := by
  unfold insertNew at mem
  split at mem
  · exact Or.inl mem
  · simpa using mem

theorem mem_foldl_insertNew (mem : type ∈ types.foldl insertNew seen) :
    type ∈ seen ∨ type ∈ types := by
  induction types generalizing seen with
  | nil => exact Or.inl mem
  | cons first rest ih =>
    rcases ih mem with old | later
    · rcases mem_insertNew old with old | rfl
      · exact Or.inl old
      · exact Or.inr List.mem_cons_self
    · exact Or.inr (List.mem_cons_of_mem _ later)

theorem prefix_insertNew (seen : List TypeExpr) (type : TypeExpr) : seen <+: insertNew seen type := by
  unfold insertNew
  split
  · exact List.prefix_refl _
  · exact List.prefix_append _ _

theorem prefix_foldl_insertNew (seen types : List TypeExpr) : seen <+: types.foldl insertNew seen := by
  induction types generalizing seen with
  | nil => exact List.prefix_refl _
  | cons first rest ih => exact (prefix_insertNew seen first).trans (ih _)

theorem Present.mono (here : Present seen type) (more : seen <+: known) : Present known type := by
  obtain ⟨old, mem, same⟩ := here
  exact ⟨old, more.subset mem, same⟩

/-- What is filled in is present. -/
theorem present_foldl_insertNew (seen : List TypeExpr) (self : type.same type = true)
    (mem : type ∈ types) : Present (types.foldl insertNew seen) type := by
  induction types generalizing seen with
  | nil => cases mem
  | cons first rest ih =>
    rcases List.mem_cons.1 mem with rfl | later
    · refine Present.mono ?_ (prefix_foldl_insertNew _ rest)
      by_cases here : Present seen type
      · rwa [insertNew_of_present here]
      · rw [insertNew_of_not_present here]
        exact ⟨type, by simp, self⟩
    · exact ih _ later

theorem foldl_insertNew_of_present (here : ∀ type ∈ types, Present seen type) :
    types.foldl insertNew seen = seen := by
  induction types with
  | nil => rfl
  | cons first rest ih =>
    obtain ⟨present, here⟩ := List.forall_mem_cons.1 here
    rw [List.foldl_cons, insertNew_of_present present, ih here]

theorem pairwise_foldl_insertNew (apart : seen.Pairwise fun s t => s.same t = false) :
    (types.foldl insertNew seen).Pairwise fun s t => s.same t = false := by
  induction types generalizing seen with
  | nil => exact apart
  | cons first rest ih =>
    refine ih ?_
    by_cases here : Present seen first
    · rwa [insertNew_of_present here]
    · rw [insertNew_of_not_present here]
      refine List.pairwise_append.2 ⟨apart, List.pairwise_singleton _ _, fun old mem type last => ?_⟩
      rw [List.mem_singleton.1 last, ← Bool.not_eq_true]
      exact fun same => here ⟨old, mem, same⟩

/-- Filling a set from a set with one more type. -/
theorem foldl_insertNew_insertNew (self : ∀ type ∈ known, type.same type = true) :
    (insertNew known type).foldl insertNew seen = insertNew (known.foldl insertNew seen) type := by
  by_cases here : Present known type
  · obtain ⟨old, mem, same⟩ := here
    obtain ⟨first, there, same'⟩ := present_foldl_insertNew seen (self old mem) mem
    rw [insertNew_of_present ⟨old, mem, same⟩,
      insertNew_of_present ⟨first, there, same_trans same' same⟩]
  · rw [insertNew_of_not_present here, List.foldl_append]
    rfl

/-- **Filling a set from a set** is filling it from all the types that the other is filled from. -/
theorem foldl_insertNew_foldl (self : ∀ type ∈ known ++ types, type.same type = true) :
    (types.foldl insertNew known).foldl insertNew seen =
      types.foldl insertNew (known.foldl insertNew seen) := by
  induction types generalizing known with
  | nil => rfl
  | cons first rest ih =>
    rw [List.foldl_cons, List.foldl_cons, ih, foldl_insertNew_insertNew]
    · exact (List.forall_mem_append.1 self).1
    · intro type mem
      refine self type ?_
      rcases List.mem_append.1 mem with old | later
      · rcases mem_insertNew old with old | rfl
        · exact List.mem_append_left _ old
        · exact List.mem_append_right _ List.mem_cons_self
      · exact List.mem_append_right _ (List.mem_cons_of_mem _ later)

end Filling

/-! ## Unions -/

section Unions

variable {types xs ys zs : List TypeExpr}

/-- A union is its only member, or a union of several that are apart. -/
theorem unionOf_cases (types : List TypeExpr) :
    unionOf types ∈ types.flatMap members ∨
      ∃ several, unionOf types = .union several ∧ several.length ≠ 1 ∧
        several ⊆ types.flatMap members ∧ several.Pairwise fun s t => s.same t = false := by
  have filled : (types.flatMap members).foldl insertNew [] ⊆ types.flatMap members := by
    intro member mem
    exact (mem_foldl_insertNew mem).resolve_left List.not_mem_nil
  unfold unionOf
  split
  · next single equal => exact Or.inl (filled (by simp [equal]))
  · next several =>
    refine Or.inr ⟨_, rfl, fun one => ?_, filled, pairwise_foldl_insertNew .nil⟩
    obtain ⟨single, equal⟩ := List.length_eq_one_iff.1 one
    exact several single equal

/-- What a union brings into another, if no member is a union. -/
theorem members_unionOf (flat : ∀ member ∈ types.flatMap members, ∀ nested, member ≠ .union nested) :
    (unionOf types).members = (types.flatMap members).foldl insertNew [] := by
  unfold unionOf
  split
  · next single equal =>
    have mem : single ∈ types.flatMap members := by
      have filled : single ∈ (types.flatMap members).foldl insertNew [] := by simp [equal]
      exact (mem_foldl_insertNew filled).resolve_left List.not_mem_nil
    rw [equal]
    cases single with
    | union nested => exact absurd rfl (flat _ mem nested)
    | _ => rfl
  · rfl

theorem unionOf_congr (filled : (xs.flatMap members).foldl insertNew [] =
    (ys.flatMap members).foldl insertNew []) : unionOf xs = unionOf ys := by
  rw [unionOf, filled, unionOf]

/-- A union among other types may be opened. -/
theorem unionOf_append_unionOf
    (flat : ∀ member ∈ ys.flatMap members, ∀ nested, member ≠ .union nested)
    (self : ∀ member ∈ ys.flatMap members, member.same member = true) :
    unionOf (xs ++ [unionOf ys] ++ zs) = unionOf (xs ++ ys ++ zs) := by
  refine unionOf_congr ?_
  simp only [List.flatMap_append, List.flatMap_singleton, List.foldl_append, members_unionOf flat]
  rw [foldl_insertNew_foldl (by simpa using self), List.foldl_nil]

/-- The second list is the first with types that come again: behind a type others may stand that are
alike. -/
inductive Repeats : List TypeExpr → List TypeExpr → List TypeExpr → Prop
  | nil (seen : List TypeExpr) : Repeats seen [] []
  | first {seen types others : List TypeExpr} {type : TypeExpr}
      (rest : Repeats (seen ++ [type]) types others) :
      Repeats seen (type :: types) (type :: others)
  | again {seen types others : List TypeExpr} {type : TypeExpr} (here : Present seen type)
      (rest : Repeats seen types others) : Repeats seen types (type :: others)

theorem Repeats.foldl_insertNew {seen : List TypeExpr} (repeats : Repeats seen xs ys)
    (self : ∀ member ∈ (seen ++ xs).flatMap members, member.same member = true) :
    (ys.flatMap members).foldl insertNew ((seen.flatMap members).foldl insertNew []) =
      (xs.flatMap members).foldl insertNew ((seen.flatMap members).foldl insertNew []) := by
  induction repeats with
  | nil => rfl
  | @first seen types others type _ ih =>
    have step := ih (by simpa using self)
    simpa [List.foldl_append] using step
  | @again seen types others type here _ ih =>
    obtain ⟨old, mem, same⟩ := here
    have present : ∀ member ∈ type.members,
        Present ((seen.flatMap members).foldl insertNew []) member := by
      intro member inside
      obtain ⟨brought, there, alike⟩ := exists_member_of_same same inside
      have among : brought ∈ seen.flatMap members := List.mem_flatMap.2 ⟨old, mem, there⟩
      obtain ⟨first, filled, same⟩ := present_foldl_insertNew []
        (self brought (by simp [among])) among
      exact ⟨first, filled, same_trans same alike⟩
    rw [List.flatMap_cons, List.foldl_append, foldl_insertNew_of_present present]
    exact ih self

/-- A union does not change when types in it come again. -/
theorem unionOf_repeats (repeats : Repeats [] xs ys)
    (self : ∀ member ∈ xs.flatMap members, member.same member = true) : unionOf ys = unionOf xs :=
  unionOf_congr (repeats.foldl_insertNew self)

end Unions

end TypeExpr

end Bindery.TypeScript
