import Bindery.Proofs.TypeScript.WrittenForms

/-!
# Types with the same values

Two types are alike if they have the same values. Types made in the same way of types that are alike
are alike too. A type is told apart into its parts, which bars separate in its text, and a part into
its stem and the layers of arrays around it.
-/

namespace Bindery.TypeScript
set_option autoImplicit false

/-- Two types have the same values. -/
def Alike (s t : TypeExpr) : Prop :=
  ∀ value, Inhabits s value ↔ Inhabits t value

namespace Alike

variable {s t u : TypeExpr}

theorem refl (s : TypeExpr) : Alike s s := fun _ => Iff.rfl

theorem symm (h : Alike s t) : Alike t s := fun value => (h value).symm

theorem trans (h : Alike s t) (h' : Alike t u) : Alike s u := fun value => (h value).trans (h' value)

theorem array (h : Alike s t) : Alike (.array s) (.array t) := fun value => by
  simp only [Inhabits, h _]

theorem record (h : Alike s t) : Alike (.record s) (.record t) := fun value => by
  simp only [Inhabits, h _]

/-- Fields of one name that both may be missing or not, and of types with the same values. -/
structure Fields (f g : Field) : Prop where
  name : f.1.name = g.1.name
  optional : f.1.optional = g.1.optional
  type : Alike f.2 g.2

theorem hasFields {fs gs : List Field} (pairs : List.Forall₂ Fields fs gs)
    (members : List (String × Json)) : HasFields fs members ↔ HasFields gs members := by
  induction pairs with
  | nil => exact Iff.rfl
  | cons pair _ ih =>
    simp only [HasFields, pair.name, pair.optional, pair.type _, ih]

theorem object {fs gs : List Field} (pairs : List.Forall₂ Fields fs gs) :
    Alike (.object fs) (.object gs) := fun value => by
  cases pairs with
  | nil => exact Iff.rfl
  | cons pair pairs =>
    simp only [Inhabits, hasFields (.cons pair pairs)]

theorem inhabitsSome {ss ts : List TypeExpr} (pairs : List.Forall₂ Alike ss ts) (value : Json) :
    InhabitsSome ss value ↔ InhabitsSome ts value := by
  induction pairs with
  | nil => exact Iff.rfl
  | cons pair _ ih => exact or_congr (pair value) ih

/-- The object with no keys is the record of which no member can be of its type. -/
theorem empty : Alike (.object []) (.record .never) := fun value => by
  have never (value : Json) : ¬Inhabits .never value := by
    cases value <;> simp [TypeExpr.never, Inhabits, RawValue]
  constructor
  · rintro rfl
    exact ⟨[], rfl, by simp⟩
  · rintro ⟨members, rfl, each⟩
    cases members with
    | nil => rfl
    | cons member rest => exact absurd (each member List.mem_cons_self) (never _)

end Alike

/-! ## Layers of arrays -/

namespace TypeExpr

/-- A type without its outer layers of arrays. The layer around a type in parentheses stays. -/
def stem : TypeExpr → TypeExpr
  | .array element => if element.isWideUnion then .array element else stem element
  | type => type
termination_by structural type => type

/-- How many outer layers of arrays a type has. -/
def layers : TypeExpr → Nat
  | .array element => if element.isWideUnion then 0 else layers element + 1
  | _ => 0
termination_by structural type => type

/-- A type in so many layers of arrays. -/
def inLayers : Nat → TypeExpr → TypeExpr
  | 0, type => type
  | n + 1, type => .array (inLayers n type)

/-- So many pairs of brackets. -/
def brackets : Nat → List Char
  | 0 => []
  | n + 1 => '[' :: ']' :: brackets n

theorem brackets_snoc (n : Nat) : brackets n ++ ['[', ']'] = brackets (n + 1) := by
  induction n with
  | zero => rfl
  | succ n ih => exact congrArg (fun cs => '[' :: ']' :: cs) ih

theorem inLayers_stem (type : TypeExpr) : inLayers type.layers type.stem = type := by
  induction type using TypeExpr.induct with
  | array element ih =>
    unfold stem layers
    split
    · rfl
    · exact congrArg TypeExpr.array ih
  | _ => rfl

/-- A type is written as its stem with brackets for its layers. -/
theorem inline_stem (type : TypeExpr) :
    type.inline.toList = type.stem.inline.toList ++ brackets type.layers := by
  induction type using TypeExpr.induct with
  | array element ih =>
    unfold stem layers
    split
    · simp [brackets]
    · next narrow =>
      rw [inline_array, if_neg narrow, String.toList_append, ih, ← brackets_snoc,
        List.append_assoc]
      rfl
  | _ => simp [stem, layers, brackets]

/-- The types between the bars of a type's text. -/
def parts : TypeExpr → List TypeExpr
  | .union (first :: second :: rest) => first :: second :: rest
  | type => [type]

theorem parts_of_narrow {type : TypeExpr} (narrow : ¬type.isWideUnion = true) :
    type.parts = [type] := by
  unfold parts
  split
  · exact absurd rfl narrow
  · rfl

theorem parts_ne_nil (type : TypeExpr) : type.parts ≠ [] := by
  unfold parts
  split <;> simp

theorem inlineAll_eq (types : List TypeExpr) : inlineAll types = types.map inline := by
  induction types with
  | nil => rfl
  | cons type rest ih => rw [inlineAll, ih, List.map_cons]

theorem inline_parts (type : TypeExpr) :
    type.inline.toList = [' ', '|', ' '].intercalate (type.parts.map (·.inline.toList)) := by
  unfold parts
  split
  · next first second rest =>
    rw [inline_union, inlineAll_eq, String.toList_intercalate, List.map_map]
    rfl
  · simp

theorem inhabits_parts (type : TypeExpr) (value : Json) :
    Inhabits type value ↔ InhabitsSome type.parts value := by
  unfold parts
  split
  · rw [Inhabits]
  · simp [InhabitsSome]

end TypeExpr

theorem Alike.parts {s t : TypeExpr} (pairs : List.Forall₂ Alike s.parts t.parts) : Alike s t :=
  fun value => by
    rw [TypeExpr.inhabits_parts, TypeExpr.inhabits_parts t]
    exact Alike.inhabitsSome pairs value

theorem Alike.inLayers {s t : TypeExpr} (h : Alike s t) (n : Nat) :
    Alike (TypeExpr.inLayers n s) (TypeExpr.inLayers n t) := by
  induction n with
  | zero => exact h
  | succ n ih => exact ih.array

end Bindery.TypeScript
