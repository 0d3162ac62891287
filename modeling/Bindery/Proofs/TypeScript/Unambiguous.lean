import Bindery.Proofs.Json.Compact
import Bindery.Proofs.TypeScript.Alike
import Bindery.Proofs.TypeScript.BuiltTypes
import Bindery.Proofs.TypeScript.Identifiers

/-!
# Written types are unambiguous

The first characters of a type on one line tell what it is, and what may follow a type tells where it
ends, at any nesting. So types that are written alike have the same values.
-/

namespace Bindery.TypeScript
set_option autoImplicit false

open Json (CanonicalNumbers Pointer)
open Text (SameOnlyIf StartsIn StopsAt startsIn_cons)

/-! ## Stems of built types -/

theorem exists_union {type : TypeExpr} (wide : type.isWideUnion = true) :
    ∃ members, type = .union members := by
  cases type with
  | union members => exact ⟨members, rfl⟩
  | _ => cases wide

/-- What holds of the stem of every part of a built type, shown for each form of stems from what holds
of the parts of the types inside. -/
theorem Built.inductStems {motive : TypeExpr → Prop}
    (raw : ∀ text, text ∈ typeWords → motive (.raw text))
    (literal : ∀ value, CanonicalNumbers value → motive (.literal value))
    (group : ∀ element, element.isWideUnion = true → Built element →
      (∀ part ∈ element.parts, motive part.stem) → motive (.array element))
    (never : motive (.union []))
    (object : ∀ fields : List Field, (∀ field ∈ fields, Built field.2) →
      (∀ field ∈ fields, ∀ part ∈ field.2.parts, motive part.stem) → motive (.object fields))
    (record : ∀ value, Built value → (∀ part ∈ value.parts, motive part.stem) →
      motive (.record value))
    {type : TypeExpr} (built : Built type) : ∀ part ∈ type.parts, motive part.stem := by
  induction built with
  | raw known => exact List.forall_mem_singleton.2 (raw _ known)
  | literal numbers => exact List.forall_mem_singleton.2 (literal _ numbers)
  | @array element inner ih =>
    refine List.forall_mem_singleton.2 ?_
    unfold TypeExpr.stem
    split
    · next wide => exact group element wide inner ih
    · next narrow =>
      rw [TypeExpr.parts_of_narrow narrow] at ih
      exact ih element (List.mem_singleton_self _)
  | @union members several inner flat ih =>
    rcases members with - | ⟨first, - | ⟨second, rest⟩⟩
    · exact List.forall_mem_singleton.2 never
    · exact absurd rfl several
    · intro part mem
      refine ih part mem part ?_
      -- A member is no union, and so a part of itself.
      rw [TypeExpr.parts_of_narrow fun wide => ?_]
      · exact List.mem_singleton_self part
      · obtain ⟨nested, union⟩ := exists_union wide
        exact flat part mem nested union
  | object inner ih => exact List.forall_mem_singleton.2 (object _ inner ih)
  | record inner ih => exact List.forall_mem_singleton.2 (record _ inner ih)

/-! ## What a type starts with -/

/-- What the first characters of a type without layers open. -/
inductive Opening
  | word | literal | record | object | group

/-- What a text opens. -/
def openingOf : List Char → Opening
  | '(' :: _ => .group
  | 'R' :: _ => .record
  | '{' :: ' ' :: _ => .object
  | c :: _ => if c.isAlpha then .word else .literal
  | [] => .literal

/-- A type without layers, by what its text opens. -/
inductive Primary : Opening → TypeExpr → Prop
  | raw {text : String} (known : text ∈ typeWords) : Primary .word (.raw text)
  | never : Primary .word (.union [])
  | null : Primary .word (.literal .null)
  | bool (b : Bool) : Primary .word (.literal (.bool b))
  | literal {value : Json} (numbers : CanonicalNumbers value) (some : value ≠ .null)
      (other : ∀ b, value ≠ .bool b) : Primary .literal (.literal value)
  | empty : Primary .record (.object [])
  | record {value : TypeExpr} (inner : Built value) : Primary .record (.record value)
  | object {fields : List Field} (some : fields ≠ []) (inner : ∀ field ∈ fields, Built field.2) :
      Primary .object (.object fields)
  | group {element : TypeExpr} (wide : element.isWideUnion = true) (inner : Built element) :
      Primary .group (.array element)

/-- Every part of a built type has a stem of one of these forms. -/
theorem Built.primary {type : TypeExpr} (built : Built type) :
    ∀ part ∈ type.parts, ∃ opening, Primary opening part.stem := by
  refine Built.inductStems (motive := fun stem => ∃ opening, Primary opening stem) ?raw ?literal
    ?group ?never ?object ?record built
  case raw => exact fun text known => ⟨_, .raw known⟩
  case literal =>
    intro value numbers
    cases value with
    | null => exact ⟨_, .null⟩
    | bool b => exact ⟨_, .bool b⟩
    | _ => exact ⟨_, .literal numbers nofun nofun⟩
  case group => exact fun element wide inner _ => ⟨_, .group wide inner⟩
  case never => exact ⟨_, .never⟩
  case object =>
    intro fields inner _
    cases fields with
    | nil => exact ⟨_, .empty⟩
    | cons field fields => exact ⟨_, .object (List.cons_ne_nil _ _) inner⟩
  case record => exact fun value inner _ => ⟨_, .record inner⟩

theorem openingOf_compact {value : Json} (some : value ≠ .null) (other : ∀ b, value ≠ .bool b)
    (rest : List Char) : openingOf (value.compact.toList ++ rest) = .literal := by
  cases value with
  | null => exact absurd rfl some
  | bool b => exact absurd rfl (other b)
  | number n =>
    obtain ⟨c, more, text, digit⟩ := Json.exists_first_number n
    rw [Json.compact, text]
    rcases digit with digit | rfl
    · have plain {d : Char} (other : d.isDigit = false) : c ≠ d := Binary64.ne_of_isDigit digit other
      have letter : c.isAlpha = false := by
        rw [← Bool.not_eq_true]
        intro letter
        rw [not_isDigit_of_isAlpha letter] at digit
        cases digit
      unfold openingOf
      split <;> simp_all
    · rfl
  | string s =>
    rw [Json.compact, Json.toList_quote]
    rfl
  | array items =>
    simp only [Json.compact, String.toList_append, List.append_assoc]
    rfl
  | object fields =>
    simp only [Json.compact, String.toList_append, List.append_assoc, Json.toList_compactFields]
    cases fields with
    | nil => rfl
    | cons field fields =>
      have first (pieces : List (List Char)) : ∃ more,
          [','].intercalate (Json.compactField field :: pieces) = '"' :: more := by
        cases pieces <;> simp [Json.compactField, Json.toList_quote]
      obtain ⟨more, first⟩ := first (fields.map Json.compactField)
      rw [List.map_cons, first]
      rfl

/-- **The first characters of a type tell its form.** -/
theorem Primary.opens {opening : Opening} {type : TypeExpr} (form : Primary opening type)
    (rest : List Char) : openingOf (type.inline.toList ++ rest) = opening := by
  cases form with
  | raw known =>
    simp only [typeWords, List.mem_cons, List.not_mem_nil, or_false] at known
    rcases known with rfl | rfl | rfl | rfl | rfl | rfl <;> rfl
  | never => rfl
  | null => rfl
  | bool b => cases b <;> rfl
  | @literal value numbers some other => exact openingOf_compact some other rest
  | empty => rfl
  | record =>
    simp only [TypeExpr.inline_record, String.toList_append, List.append_assoc]
    rfl
  | object some =>
    simp only [TypeExpr.inline_object some, Text.toList_inBraces, List.append_assoc]
    rfl
  | group wide =>
    simp only [TypeExpr.inline_array, if_pos wide, String.toList_append, List.append_assoc]
    rfl

/-! ## What may follow a type -/

/-- The characters that may stand behind a type. -/
def typeEnds : List Char := [')', '>', ';', ' ']

/-- What may follow a type. A blank with a bar behind it would belong to the type. -/
def FollowsType (rest : List Char) : Prop :=
  StartsIn typeEnds rest ∧ ¬[' ', '|', ' '] <+: rest

/-- What may follow a type without its layers. -/
abbrev FollowsStem : List Char → Prop :=
  StartsIn ('[' :: typeEnds)

/-- A type is written like a built one only if they have the same values. -/
def Told (s : TypeExpr) : Prop :=
  ∀ t, Built t → SameOnlyIf FollowsType s.inline.toList t.inline.toList (Alike s t)

/-- A type is written like one without layers only if they have the same values. -/
def StemTold (s : TypeExpr) : Prop :=
  ∀ opening t, Primary opening t →
    SameOnlyIf FollowsStem s.inline.toList t.inline.toList (Alike s t)

theorem startsIn_brackets {rest : List Char} (ends : StartsIn typeEnds rest) (n : Nat) :
    FollowsStem (TypeExpr.brackets n ++ rest) := by
  cases n with
  | zero => exact ends.mono (List.subset_cons_self _ _)
  | succ n => exact startsIn_cons List.mem_cons_self _

theorem sameOnlyIf_brackets (m n : Nat) :
    SameOnlyIf (StartsIn typeEnds) (TypeExpr.brackets m) (TypeExpr.brackets n) (m = n) := by
  intro rest rest' ends ends' same
  have none {rest : List Char} (ends : StartsIn typeEnds rest) (more : List Char) :
      rest ≠ '[' :: more := by
    rintro rfl
    exact absurd (ends '[' rfl) (by decide)
  induction m generalizing n with
  | zero =>
    cases n with
    | zero => exact ⟨rfl, same⟩
    | succ n => exact absurd same (none ends _)
  | succ m ih =>
    cases n with
    | zero => exact absurd same.symm (none ends' _)
    | succ n =>
      obtain ⟨count, same⟩ := ih n (List.cons.inj (List.cons.inj same).2).2
      exact ⟨congrArg Nat.succ count, same⟩

/-- Types of which all stems are told are told. -/
theorem told_of_stems {s : TypeExpr} (stems : ∀ part ∈ s.parts, StemTold part.stem) : Told s := by
  intro t built
  rw [TypeExpr.inline_parts, TypeExpr.inline_parts t]
  have each : ∀ x ∈ s.parts, ∀ y ∈ t.parts,
      SameOnlyIf (StartsIn typeEnds) x.inline.toList y.inline.toList (Alike x y) := by
    intro x mem y mem'
    obtain ⟨opening, form⟩ := built.primary y mem'
    rw [TypeExpr.inline_stem, TypeExpr.inline_stem y]
    refine ((stems x mem opening y.stem form).append (sameOnlyIf_brackets x.layers y.layers)
      fun rest ends => ⟨startsIn_brackets ends _, startsIn_brackets ends _⟩).imp ?_
    rintro ⟨alike, layers⟩
    have outer := alike.inLayers x.layers
    rwa [TypeExpr.inLayers_stem, layers, TypeExpr.inLayers_stem] at outer
  exact (Text.sameOnlyIf_intercalate (fun rest => startsIn_cons (by decide) _) each
    s.parts_ne_nil t.parts_ne_nil).imp Alike.parts

/-- Only texts that open the same need to be told apart. -/
theorem stemTold_of_opening {opening : Opening} {s : TypeExpr} (form : Primary opening s)
    (each : ∀ t, Primary opening t →
      SameOnlyIf FollowsStem s.inline.toList t.inline.toList (Alike s t)) : StemTold s := by
  intro opening' t form' rest rest' ends ends' same
  have opens := congrArg openingOf same
  rw [form.opens, form'.opens] at opens
  subst opens
  exact each t form' ends ends' same

/-! ## Words -/

/-- The type that a word means. -/
def wordType (word : String) : TypeExpr :=
  if word = "true" then .literal (.bool true)
  else if word = "false" then .literal (.bool false)
  else .raw word

theorem Primary.letters {type : TypeExpr} (form : Primary .word type) :
    ∀ c ∈ type.inline.toList, c.isAlpha = true := by
  apply List.all_eq_true.1
  cases form with
  | raw known =>
    simp only [typeWords, List.mem_cons, List.not_mem_nil, or_false] at known
    rcases known with rfl | rfl | rfl | rfl | rfl | rfl <;> decide
  | never => decide
  | null => decide
  | bool b => cases b <;> decide

theorem Primary.alike_word {type : TypeExpr} (form : Primary .word type) :
    Alike type (wordType type.inline) := by
  cases form with
  | raw known =>
    simp only [typeWords, List.mem_cons, List.not_mem_nil, or_false] at known
    rcases known with rfl | rfl | rfl | rfl | rfl | rfl <;> exact Alike.refl _
  | never =>
    show Alike (.union []) (.raw "never")
    intro value
    cases value <;> simp [Inhabits, InhabitsSome, RawValue]
  | null =>
    show Alike (.literal .null) (.raw "null")
    intro value
    cases value <;> simp [Inhabits, Json.Equal, RawValue]
  | bool b => cases b <;> exact Alike.refl _

theorem stemTold_word {s : TypeExpr} (form : Primary .word s) : StemTold s := by
  refine stemTold_of_opening form fun t form' => ?_
  refine ((Text.sameOnlyIf_run form.letters form'.letters).mono fun rest ends =>
    ends.stopsAt (by decide)).imp fun same => ?_
  have alike := form.alike_word
  rw [String.toList_inj.1 same] at alike
  exact alike.trans form'.alike_word.symm

/-! ## Literals -/

theorem stemTold_literal {value : Json} (numbers : CanonicalNumbers value) (some : value ≠ .null)
    (other : ∀ b, value ≠ .bool b) : StemTold (.literal value) := by
  refine stemTold_of_opening (.literal numbers some other) fun t form => ?_
  cases form with
  | literal numbers' =>
    refine ((Json.sameOnlyIf_compact numbers numbers').mono fun rest ends =>
      ends.stopsAt (by decide)).imp ?_
    rintro rfl
    exact Alike.refl _

/-! ## Records -/

/-- A record's text, and the type of its values. -/
theorem Primary.exists_record {type : TypeExpr} (form : Primary .record type) :
    ∃ value, Built value ∧ Alike type (.record value) ∧
      type.inline.toList = "Record<string, ".toList ++ (value.inline.toList ++ ['>']) := by
  cases form with
  | empty => exact ⟨.never, .raw (by decide), Alike.empty, by decide⟩
  | @record value inner => exact ⟨value, inner, Alike.refl _, by simp [TypeExpr.inline_record]⟩

theorem stemTold_record {s value : TypeExpr} (form : Primary .record s) (alike : Alike s (.record value))
    (text : s.inline.toList = "Record<string, ".toList ++ (value.inline.toList ++ ['>']))
    (inner : Told value) : StemTold s := by
  refine stemTold_of_opening form fun t form' => ?_
  obtain ⟨value', built, alike', text'⟩ := form'.exists_record
  rw [text, text']
  refine (((inner value' built).close fun rest => ?_).prepend _).imp fun same => ?_
  · exact ⟨startsIn_cons (by decide) _, by simp⟩
  · exact alike.trans (same.record.trans alike'.symm)

/-! ## Arrays of wide unions -/

theorem stemTold_group {element : TypeExpr} (wide : element.isWideUnion = true)
    (built : Built element) (inner : Told element) : StemTold (.array element) := by
  have text {element : TypeExpr} (wide : element.isWideUnion = true) :
      (TypeExpr.array element).inline.toList = ['('] ++ (element.inline.toList ++ [')', '[', ']']) := by
    simp [TypeExpr.inline_array, wide]
  refine stemTold_of_opening (.group wide built) fun t form => ?_
  cases form with
  | group wide' built' =>
    rw [text wide, text wide']
    refine (((inner _ built').close fun rest => ?_).prepend _).imp Alike.array
    exact ⟨startsIn_cons (by decide) _, by simp⟩

/-! ## Objects -/

theorem sameOnlyIf_propertyKey (m n : String) :
    SameOnlyIf (StartsIn ['?', ':']) (propertyKey m).toList (propertyKey n).toList (m = n) := by
  have bare {name name' : String} (identifier : isIdentifier name = true) (rest rest' : List Char) :
      name.toList ++ rest ≠ (Json.quote name').toList ++ rest' := by
    obtain ⟨parts, c, cs, first, -⟩ := (isIdentifier_iff name).1 identifier
    have part : isIdentifierPart c = true := parts c (by rw [first]; exact List.mem_cons_self)
    rw [first, Json.toList_quote]
    intro same
    rw [(List.cons.inj same).1] at part
    cases part
  unfold propertyKey
  split
  · next identifier =>
    split
    · next identifier' =>
      refine ((Text.sameOnlyIf_run ((isIdentifier_iff m).1 identifier).1
        ((isIdentifier_iff n).1 identifier').1).mono fun rest ends => ends.stopsAt (by decide)).imp ?_
      exact String.toList_inj.1
    · exact fun rest rest' _ _ same => absurd same (bare identifier _ _)
  · split
    · next identifier' => exact fun rest rest' _ _ same => absurd same.symm (bare identifier' _ _)
    · exact Json.sameOnlyIf_quote _ m n

theorem sameOnlyIf_key (f g : FieldHead) :
    SameOnlyIf (StartsIn [':']) f.key.toList g.key.toList
      (f.name = g.name ∧ f.optional = g.optional) := by
  have mark (b b' : Bool) : SameOnlyIf (StartsIn [':']) (if b then "?" else "").toList
      (if b' then "?" else "").toList (b = b') := by
    intro rest rest' ends ends' same
    have none {rest : List Char} (ends : StartsIn [':'] rest) (more : List Char) :
        rest ≠ '?' :: more := by
      rintro rfl
      exact absurd (ends '?' rfl) (by decide)
    cases b <;> cases b'
    · exact ⟨rfl, same⟩
    · exact absurd same (none ends _)
    · exact absurd same.symm (none ends' _)
    · exact ⟨rfl, List.append_cancel_left same⟩
  unfold FieldHead.key
  rw [String.toList_append, String.toList_append]
  refine (sameOnlyIf_propertyKey f.name g.name).append (mark f.optional g.optional) ?_
  have follows (b : Bool) {rest : List Char} (ends : StartsIn [':'] rest) :
      StartsIn ['?', ':'] ((if b then "?" else "").toList ++ rest) := by
    cases b with
    | true => exact startsIn_cons (by decide) _
    | false => exact ends.mono (List.subset_cons_self _ _)
  exact fun rest ends => ⟨follows _ ends, follows _ ends⟩

theorem sameOnlyIf_signature {f g : Field}
    (types : SameOnlyIf FollowsType f.2.inline.toList g.2.inline.toList (Alike f.2 g.2)) :
    SameOnlyIf FollowsType (Field.signature f).toList (Field.signature g).toList
      (Alike.Fields f g) := by
  have text (field : Field) : (Field.signature field).toList =
      field.1.key.toList ++ ([':', ' '] ++ field.2.inline.toList) := by
    simp [Field.signature]
  rw [text, text]
  refine ((sameOnlyIf_key f.1 g.1).append (types.prepend [':', ' '])
    fun rest _ => ⟨startsIn_cons (by decide) _, startsIn_cons (by decide) _⟩).imp ?_
  rintro ⟨⟨name, optional⟩, type⟩
  exact ⟨name, optional, type⟩

theorem stemTold_object {fields : List Field} (some : fields ≠ [])
    (built : ∀ field ∈ fields, Built field.2) (inner : ∀ field ∈ fields, Told field.2) :
    StemTold (.object fields) := by
  have text {fields : List Field} (some : fields ≠ []) : (TypeExpr.object fields).inline.toList =
      ['{', ' '] ++ ([';', ' '].intercalate (fields.map fun field =>
        (Field.signature field).toList) ++ [' ', '}']) := by
    rw [TypeExpr.inline_object some, TypeExpr.signatures_eq, Text.toList_inBraces,
      String.toList_intercalate, List.map_map, List.append_assoc]
    rfl
  refine stemTold_of_opening (.object some built) fun t form => ?_
  cases form with
  | @object others some' built' =>
    rw [text some, text some']
    have each : ∀ f ∈ fields, ∀ g ∈ others, SameOnlyIf FollowsType (Field.signature f).toList
        (Field.signature g).toList (Alike.Fields f g) := fun f mem g mem' =>
      sameOnlyIf_signature (inner f mem g.2 (built' g mem'))
    refine (((Text.sameOnlyIf_intercalate ?_ each some some').close fun rest => ?_).prepend _).imp
      Alike.object
    · exact fun rest => ⟨startsIn_cons (by decide) _, by simp⟩
    · exact ⟨⟨startsIn_cons (by decide) _, by simp⟩, by simp⟩

/-! ## All types -/

/-- The stems of a built type are told. -/
theorem Built.stems {type : TypeExpr} (built : Built type) :
    ∀ part ∈ type.parts, StemTold part.stem := by
  refine built.inductStems ?raw ?literal ?group ?never ?object ?record
  case raw => exact fun text known => stemTold_word (.raw known)
  case literal =>
    intro value numbers
    cases value with
    | null => exact stemTold_word .null
    | bool b => exact stemTold_word (.bool b)
    | _ => exact stemTold_literal numbers nofun nofun
  case group => exact fun element wide inner ih => stemTold_group wide inner (told_of_stems ih)
  case never => exact stemTold_word .never
  case object =>
    intro fields inner ih
    cases fields with
    | nil =>
      have never : StemTold .never := stemTold_word (.raw (by decide))
      exact stemTold_record .empty Alike.empty (by decide)
        (told_of_stems (List.forall_mem_singleton.2 never))
    | cons field fields =>
      exact stemTold_object (List.cons_ne_nil _ _) inner fun field mem => told_of_stems (ih field mem)
  case record =>
    exact fun value inner ih => stemTold_record (.record inner) (Alike.refl _)
      (by simp [TypeExpr.inline_record]) (told_of_stems ih)

/-- **Built types that are written alike have the same values.** -/
theorem Built.alike {s t : TypeExpr} (hs : Built s) (ht : Built t) (same : s.inline = t.inline) :
    Alike s t := by
  have nothing : FollowsType [] := ⟨nofun, by simp⟩
  exact (told_of_stems hs.stems t ht nothing nothing (by rw [same])).1

/-- **Types that are written alike have the same values**, whatever schemas they are of. The numbers
in the schemas are canonical, as they are in all that is read. -/
theorem inline_unambiguous {place place' : Pointer} {schema schema' : Json} {s t : TypeExpr}
    (numbers : CanonicalNumbers schema) (numbers' : CanonicalNumbers schema')
    (typed : typeOfNode place schema = .ok s) (typed' : typeOfNode place' schema' = .ok t)
    (same : s.inline = t.inline) (value : Json) : Inhabits s value ↔ Inhabits t value :=
  (built_typeOfNode numbers typed).alike (built_typeOfNode numbers' typed') same value

/-- A literal that is written like a word, and an object with no keys that is written like a record. -/
theorem inline_unambiguous_null :
    let half : Json := .number (.real ⟨false, 2 ^ 52, -53⟩)
    let schema : Json := .object [("items", .object [("oneOf", .array
      [.object [("const", .null)], .object [("const", half)],
        .object [("type", .string "object"), ("additionalProperties", .bool false)]])])]
    let schema' : Json := .object [("items", .object [("anyOf", .array
      [.object [("type", .string "null")], .object [("const", half)],
        .object [("type", .string "object"),
          ("additionalProperties", .object [("enum", .array [])])]])])]
    let s : TypeExpr := .array (.union [.literal .null, .literal half, .object []])
    let t : TypeExpr := .array (.union [.null, .literal half, .record (.union [])])
    CanonicalNumbers schema ∧ CanonicalNumbers schema' ∧
      typeOfNode [] schema = .ok s ∧ typeOfNode [] schema' = .ok t ∧
      s.inline = "(null | 0.5 | Record<string, never>)[]" ∧ t.inline = s.inline ∧
      ∀ value, Inhabits s value ↔ Inhabits t value := by
  intro half schema schema' s t
  have canonical : CanonicalNumbers half := .number (.real (by decide))
  have numbers : CanonicalNumbers schema := by simp [schema, canonical]
  have numbers' : CanonicalNumbers schema' := by simp [schema', canonical]
  have typed : typeOfNode [] schema = .ok s := rfl
  have typed' : typeOfNode [] schema' = .ok t := rfl
  have text : s.inline = "(null | 0.5 | Record<string, never>)[]" := by decide +kernel
  have same : t.inline = s.inline := by decide +kernel
  exact ⟨numbers, numbers', typed, typed', text, same,
    inline_unambiguous numbers numbers' typed typed' same.symm⟩

end Bindery.TypeScript
