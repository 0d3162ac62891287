import Bindery.Proofs.TypeScript.Making
import Bindery.Proofs.TypeScript.Unions

/-!
# Types in normal form

In the type of a schema no union has a union as a member, a single member, or two members that are
alike. On types of this form a union is an operation on sets: a union among its types may be opened,
and types that come again change nothing.
-/

namespace Bindery.TypeScript
set_option autoImplicit false

open Json (DistinctKeys Pointer)
open TypeExpr (Repeats unionOf members)

/-- A type in normal form, in all its parts. -/
inductive NormalForm : TypeExpr → Prop
  | raw (text : String) : NormalForm (.raw text)
  | literal {value : Json} (keys : DistinctKeys value) : NormalForm (.literal value)
  | array {element : TypeExpr} (inner : NormalForm element) : NormalForm (.array element)
  | union {members : List TypeExpr} (several : members.length ≠ 1)
      (flat : ∀ type ∈ members, ∀ nested, type ≠ .union nested)
      (apart : members.Pairwise fun s t => s.same t = false ∧ t.same s = false)
      (inner : ∀ type ∈ members, NormalForm type) : NormalForm (.union members)
  | object {fields : List Field} (inner : ∀ field ∈ fields, NormalForm field.2) :
      NormalForm (.object fields)
  | record {value : TypeExpr} (inner : NormalForm value) : NormalForm (.record value)

namespace NormalForm

variable {s t type member : TypeExpr} {types : List TypeExpr}

/-! ## Alike types -/

theorem same_self (h : NormalForm type) : type.same type = true := by
  induction h with
  | raw text => exact beq_self_eq_true text
  | literal keys => exact Json.same_self keys
  | array _ ih => exact ih
  | union _ _ _ _ ih => exact TypeExpr.sameMembers_self ih
  | object _ ih => exact TypeExpr.sameFields_self ih
  | record _ ih => exact ih

theorem same_symm (h : NormalForm s) (same : s.same t = true) : t.same s = true := by
  induction h generalizing t with
  | raw text =>
    cases t with
    | raw other => exact BEq.symm (show (text == other) = true from same)
    | _ => cases same
  | literal keys =>
    cases t with
    | literal other => exact Json.same_symm keys same
    | _ => cases same
  | array _ ih =>
    cases t with
    | array other => exact ih same
    | _ => cases same
  | union _ _ _ _ ih =>
    cases t with
    | union others => exact TypeExpr.sameMembers_symm (fun s mem _ => ih s mem) same
    | _ => cases same
  | object _ ih =>
    cases t with
    | object others => exact TypeExpr.sameFields_symm (fun f mem _ => ih f mem) same
    | _ => cases same
  | record _ ih =>
    cases t with
    | record other => exact ih same
    | _ => cases same

/-! ## Unions -/

/-- What a type in normal form brings into a union is in normal form and no union. -/
theorem of_member (h : NormalForm type) (mem : member ∈ type.members) :
    NormalForm member ∧ ∀ nested, member ≠ .union nested := by
  cases type with
  | union members =>
    cases h with
    | union _ flat _ inner => exact ⟨inner member mem, flat member mem⟩
  | _ =>
    obtain rfl := List.mem_singleton.1 mem
    exact ⟨h, by simp⟩

theorem of_members (each : ∀ type ∈ types, NormalForm type) :
    ∀ member ∈ types.flatMap members, NormalForm member ∧ ∀ nested, member ≠ .union nested := by
  intro member mem
  obtain ⟨type, here, inside⟩ := List.mem_flatMap.1 mem
  exact (each type here).of_member inside

theorem unionOf (each : ∀ type ∈ types, NormalForm type) : NormalForm (unionOf types) := by
  have brought := of_members each
  rcases TypeExpr.unionOf_cases types with single | ⟨several, whole, length, among, apart⟩
  · exact (brought _ single).1
  · rw [whole]
    have inner : ∀ type ∈ several, NormalForm type := fun type mem => (brought type (among mem)).1
    refine .union length (fun type mem => (brought type (among mem)).2) ?_ inner
    refine apart.imp_of_mem fun {s t} _ mem differ => ⟨differ, ?_⟩
    rw [← Bool.not_eq_true] at differ ⊢
    exact fun same => differ ((inner t mem).same_symm same)

end NormalForm

theorem kept_normalForm : Kept DistinctKeys NormalForm where
  item := Json.distinctKeys_array.1
  field whole := (Json.distinctKeys_object.1 whole).2
  raw _ := .raw _
  literal := .literal
  array := .array
  unionOf := NormalForm.unionOf
  object := .object
  record := .record

/-- **The types of schemas are in normal form, and unions of such types are sets.** A union among the
types of a union may be opened, and types that come again behind one that is alike change nothing. -/
theorem unions_are_flat_sets :
    (∀ (place : Pointer) (schema : Json) (type : TypeExpr), schema.DistinctKeys →
      typeOfNode place schema = .ok type → NormalForm type) ∧
    (∀ xs ys zs : List TypeExpr, (∀ type ∈ ys, NormalForm type) →
      unionOf (xs ++ [unionOf ys] ++ zs) = unionOf (xs ++ ys ++ zs)) ∧
    ∀ xs ys : List TypeExpr, (∀ type ∈ xs, NormalForm type) → Repeats [] xs ys →
      unionOf ys = unionOf xs := by
  refine ⟨fun _ _ _ keys typed => kept_normalForm.of_typeOfNode keys typed, ?_, ?_⟩
  · intro xs ys zs each
    exact TypeExpr.unionOf_append_unionOf
      (fun member mem => (NormalForm.of_members each member mem).2)
      fun member mem => (NormalForm.of_members each member mem).1.same_self
  · intro xs ys each repeats
    exact TypeExpr.unionOf_repeats repeats fun member mem =>
      (NormalForm.of_members each member mem).1.same_self

/-- Nested unions with the two zeros, an object with its fields in two orders, and a tag that comes
again. -/
theorem unions_are_flat_sets_zeros :
    let zero (negative : Bool) : Json := .number (.real (.zero negative))
    let one : Json := .number (.int 1)
    let pair : Json := .object [("a", .null), ("b", one)]
    let swapped : Json := .object [("b", one), ("a", .null)]
    let schema : Json := .object [("oneOf", .array
      [.object [("type", .array [.string "string", .string "null"])],
        .object [("enum", .array [zero false, pair, zero true, swapped])],
        .object [("type", .string "null")]])]
    let type : TypeExpr := .union [.string, .null, .literal (zero false), .literal pair]
    let xs : List TypeExpr := [type, .number]
    let ys : List TypeExpr := [type, type, .number, type]
    schema.DistinctKeys ∧ typeOfNode [] schema = .ok type ∧ NormalForm type ∧
      unionOf ([.number] ++ [unionOf [type, .null]] ++ [.string]) =
        unionOf ([.number] ++ [type, .null] ++ [.string]) ∧
      Repeats [] xs ys ∧ unionOf ys = unionOf xs := by
  intro zero one pair swapped schema type xs ys
  have keys : schema.DistinctKeys := by
    simp [schema, zero, one, pair, swapped]
  have typed : typeOfNode [] schema = .ok type := rfl
  obtain ⟨normal, opened, again⟩ := unions_are_flat_sets
  have form : NormalForm type := normal [] schema type keys typed
  have self : type.same type = true := form.same_self
  have repeats : Repeats [] xs ys :=
    .first (.again ⟨type, by simp, self⟩ (.first (.again ⟨type, by simp, self⟩ (.nil _))))
  refine ⟨keys, typed, form, opened _ _ _ ?_, repeats, again xs ys ?_ repeats⟩
  · exact List.forall_mem_cons.2 ⟨form, List.forall_mem_singleton.2 (.raw "null")⟩
  · exact List.forall_mem_cons.2 ⟨form, List.forall_mem_singleton.2 (.raw "number")⟩

end Bindery.TypeScript
