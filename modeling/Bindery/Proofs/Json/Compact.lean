import Bindery.Proofs.Binary64.Writing
import Bindery.Proofs.Json.Depth
import Bindery.Proofs.Json.Numbers
import Bindery.Proofs.Json.Quoting
import Bindery.Proofs.Text.Pieces

/-!
# Compact texts tell values apart

The first character of a value on one line tells its kind, and a value ends where its text does: a
number at the first character that no number has, a string at its closing quote, and an array or an
object at its closing bracket. So two values that are written alike are the same, whatever follows.
-/

namespace Bindery.Json
set_option autoImplicit false

open Text (SameOnlyIf StopsAt)

/-! ## Numbers -/

/-- A character that numbers have. -/
def isNumberPart (c : Char) : Bool :=
  c.isDigit || c == '.' || c == 'e' || c == '+' || c == '-'

theorem toList_toString_nat (n : Nat) : (toString n).toList = Nat.toDigits 10 n :=
  String.toList_ofList

theorem toList_toString_int (i : Int) :
    (toString i).toList =
      if 0 ≤ i then Nat.toDigits 10 i.toNat else '-' :: Nat.toDigits 10 (-i).toNat := by
  rw [Int.toString_eq_repr, Int.repr_eq_if]
  split
  · exact toList_toString_nat _
  · rw [String.toList_append]
    exact congrArg ('-' :: ·) (toList_toString_nat _)

/-- A whole number has neither point nor exponent. -/
theorem mem_text_int {i : Int} {c : Char} (mem : c ∈ (Number.int i).text.toList) :
    c.isDigit = true ∨ c = '-' := by
  have digits {n : Nat} (mem : c ∈ Nat.toDigits 10 n) : c.isDigit = true :=
    Nat.isDigit_of_mem_toDigits (by decide) (by decide) mem
  rw [Number.text, toList_toString_int] at mem
  split at mem
  · exact Or.inl (digits mem)
  · exact (List.mem_cons.1 mem).symm.imp_left digits

theorem text_real (x : Binary64) : (Number.real x).text.toList = x.text := by
  rw [Number.text, String.toList_ofList]

/-- All of a number are characters that numbers have. -/
theorem isNumberPart_of_mem_text {n : Number} {c : Char} (mem : c ∈ n.text.toList) :
    isNumberPart c = true := by
  cases n with
  | int i => rcases mem_text_int mem with digit | rfl <;> simp [isNumberPart, *]
  | real x =>
    rw [text_real, Binary64.text] at mem
    rcases List.mem_append.1 mem with sign | digits
    · split at sign <;> simp_all [isNumberPart]
    · rcases (Binary64.layout_text _).mem digits with digit | mark
      · simp [isNumberPart, digit]
      · simp only [List.mem_cons, List.not_mem_nil, or_false] at mark
        rcases mark with rfl | rfl | rfl | rfl <;> rfl

theorem exists_first_digit (n : Nat) :
    ∃ c rest, Nat.toDigits 10 n = c :: rest ∧ c.isDigit = true := by
  obtain ⟨c, rest, digits⟩ := List.exists_cons_of_ne_nil (Nat.toDigits_ne_nil (n := n) (b := 10))
  refine ⟨c, rest, digits, Nat.isDigit_of_mem_toDigits (b := 10) (n := n) (by decide) (by decide) ?_⟩
  rw [digits]
  exact List.mem_cons_self

theorem exists_first_number (n : Number) :
    ∃ c rest, n.text.toList = c :: rest ∧ (c.isDigit = true ∨ c = '-') := by
  cases n with
  | int i =>
    rw [Number.text, toList_toString_int]
    split
    · obtain ⟨c, rest, digits, digit⟩ := exists_first_digit i.toNat
      exact ⟨c, rest, digits, Or.inl digit⟩
    · exact ⟨'-', _, rfl, Or.inr rfl⟩
  | real x =>
    rw [text_real, Binary64.text]
    split
    · exact ⟨'-', _, rfl, Or.inr rfl⟩
    · obtain ⟨c, rest, digits, digit⟩ := (Binary64.layout_text x.shortest).head_isDigit
      exact ⟨c, rest, digits, Or.inl digit⟩

theorem int_of_toString {i j : Int} (same : (toString i).toList = (toString j).toList) : i = j := by
  rw [toList_toString_int, toList_toString_int] at same
  have digits {m n : Nat} (same : Nat.toDigits 10 m = Nat.toDigits 10 n) : m = n := by
    rw [← Nat.ofDigitChars_ten_toDigits (n := m), same, Nat.ofDigitChars_ten_toDigits]
  -- No digit is a sign.
  have signless {m n : Nat} : Nat.toDigits 10 m ≠ '-' :: Nat.toDigits 10 n := by
    obtain ⟨c, rest, first, digit⟩ := exists_first_digit m
    rw [first]
    rintro same
    cases same
    cases digit
  split at same <;> split at same
  · have := digits same
    omega
  · exact absurd same signless
  · exact absurd same.symm signless
  · have := digits (List.cons.inj same).2
    omega

/-- **Numbers that are written alike are the same.** -/
theorem number_of_text {m n : Number} (hm : m.IsCanonical) (hn : n.IsCanonical)
    (same : m.text.toList = n.text.toList) : m = n := by
  have kinds {i : Int} {x : Binary64} : (Number.int i).text.toList ≠ (Number.real x).text.toList := by
    intro same
    obtain ⟨c, mem, mark⟩ := (Binary64.layout_text x.shortest).marked
    have inside : c ∈ (Number.int i).text.toList := by
      rw [same, text_real, Binary64.text]
      exact List.mem_append_right _ mem
    simp only [List.mem_cons, List.not_mem_nil, or_false] at mark
    rcases mem_text_int inside with digit | rfl
    · rcases mark with rfl | rfl <;> cases digit
    · simp at mark
  cases m with
  | int i =>
    cases n with
    | int j => rw [int_of_toString same]
    | real y => exact absurd same kinds
  | real x =>
    cases n with
    | int j => exact absurd same.symm kinds
    | real y =>
      rw [text_real, text_real] at same
      rw [Binary64.eq_of_text_eq (isCanonical_real.1 hm) (isCanonical_real.1 hn) same]

/-! ## Strings -/

theorem toList_quote (s : String) :
    (quote s).toList = '"' :: (s.toList.flatMap escapeChar ++ ['"']) := by
  simp [quote]

theorem sameOnlyIf_quote (Follows : List Char → Prop) (s t : String) :
    SameOnlyIf Follows (quote s).toList (quote t).toList (s = t) := by
  intro rest rest' _ _ same
  simp only [toList_quote, List.cons_append, List.append_assoc, List.nil_append, List.cons.injEq,
    true_and] at same
  have read := readString_escaped s.toList rest
  rw [same, readString_escaped, Option.some.injEq, Prod.mk.injEq] at read
  exact ⟨String.toList_inj.1 read.1.symm, read.2.symm⟩

/-! ## Values -/

/-- The kind of the values that start with a character, if any do. -/
def kindOpenedBy (c : Char) : String :=
  if c = 'n' then "null"
  else if c = 't' ∨ c = 'f' then "a boolean"
  else if c = '"' then "a string"
  else if c = '[' then "an array"
  else if c = '{' then "an object"
  else if c.isDigit || c == '-' then "a number"
  else "nothing"

/-- **The first character of a value tells its kind.** -/
theorem exists_first_compact (value : Json) :
    ∃ c rest, value.compact.toList = c :: rest ∧ kindOpenedBy c = value.kindName := by
  cases value with
  | null => exact ⟨'n', _, rfl, rfl⟩
  | bool b =>
    cases b with
    | true => exact ⟨'t', _, rfl, rfl⟩
    | false => exact ⟨'f', _, rfl, rfl⟩
  | number n =>
    obtain ⟨c, rest, text, digit⟩ := exists_first_number n
    refine ⟨c, rest, text, ?_⟩
    rcases digit with digit | rfl
    · have plain {d : Char} (other : d.isDigit = false) : c ≠ d := Binary64.ne_of_isDigit digit other
      simp [kindOpenedBy, kindName, plain, digit]
    · rfl
  | string s => exact ⟨'"', _, toList_quote s, rfl⟩
  | array items => exact ⟨'[', _, by simp [compact]; rfl, rfl⟩
  | object fields => exact ⟨'{', _, by simp [compact]; rfl, rfl⟩

theorem kindName_ne_nothing (value : Json) : value.kindName ≠ "nothing" := by
  cases value <;> simp [kindName]

theorem toList_compactItems (items : List Json) :
    (compactItems items).toList = [','].intercalate (items.map (·.compact.toList)) := by
  induction items with
  | nil => rfl
  | cons item rest ih =>
    cases rest with
    | nil => simp [compactItems]
    | cons next rest =>
      rw [compactItems, String.toList_append, String.toList_append, ih, List.map_cons, List.map_cons,
        List.map_cons, List.intercalate_cons_cons]
      · rfl
      · nofun

/-- A field on one line. -/
def compactField (field : String × Json) : List Char :=
  (quote field.1).toList ++ ':' :: field.2.compact.toList

theorem toList_compactFields (fields : List (String × Json)) :
    (compactFields fields).toList = [','].intercalate (fields.map compactField) := by
  induction fields with
  | nil => rfl
  | cons field rest ih =>
    obtain ⟨key, value⟩ := field
    cases rest with
    | nil => simp [compactFields, compactField]
    | cons next rest =>
      rw [compactFields, String.toList_append, ih, List.map_cons, List.map_cons, List.map_cons,
        List.intercalate_cons_cons]
      · simp [compactField]
      · nofun

theorem kindName_of_compact {a b : Json} {rest rest' : List Char}
    (same : a.compact.toList ++ rest = b.compact.toList ++ rest') : a.kindName = b.kindName := by
  obtain ⟨c, more, first, kind⟩ := exists_first_compact a
  obtain ⟨c', more', first', kind'⟩ := exists_first_compact b
  rw [first, first', List.cons_append, List.cons_append, List.cons.injEq] at same
  rw [← kind, ← kind', same.1]

/-- The items of an array. -/
theorem sameOnlyIf_array {xs ys : List Json} {Follows : List Char → Prop}
    (each : ∀ x ∈ xs, ∀ y ∈ ys,
      SameOnlyIf (StopsAt isNumberPart) x.compact.toList y.compact.toList (x = y)) :
    SameOnlyIf Follows (Json.array xs).compact.toList (Json.array ys).compact.toList (xs = ys) := by
  have text (items : List Json) : (Json.array items).compact.toList =
      ['['] ++ ([','].intercalate (items.map (·.compact.toList)) ++ [']']) := by
    simp [compact, toList_compactItems]
  have apart (x : Json) (rest rest' : List Char) : x.compact.toList ++ rest ≠ [']'] ++ rest' := by
    obtain ⟨c, more, first, kind⟩ := exists_first_compact x
    rw [first]
    rintro same
    cases same
    exact kindName_ne_nothing x kind.symm
  rw [text, text]
  refine ((Text.sameOnlyIf_enclosed ?_ ?_ each (fun x _ => apart x) fun y _ => apart y).prepend _).imp
    fun items => ?_
  · exact fun rest c first => by cases first; rfl
  · exact fun rest => ⟨fun c first => by cases first; rfl, by simp⟩
  · exact List.forall₂_eq_eq_eq ▸ items

theorem sameOnlyIf_compactField {f g : String × Json}
    (values : SameOnlyIf (StopsAt isNumberPart) f.2.compact.toList g.2.compact.toList (f.2 = g.2)) :
    SameOnlyIf (StopsAt isNumberPart) (compactField f) (compactField g) (f = g) :=
  ((sameOnlyIf_quote (fun _ => True) f.1 g.1).append (values.prepend [':'])
    fun _ _ => ⟨trivial, trivial⟩).imp fun same => Prod.ext same.1 same.2

/-- The fields of an object. -/
theorem sameOnlyIf_object {fs gs : List (String × Json)} {Follows : List Char → Prop}
    (each : ∀ f ∈ fs, ∀ g ∈ gs,
      SameOnlyIf (StopsAt isNumberPart) f.2.compact.toList g.2.compact.toList (f.2 = g.2)) :
    SameOnlyIf Follows (Json.object fs).compact.toList (Json.object gs).compact.toList (fs = gs) := by
  have text (fields : List (String × Json)) : (Json.object fields).compact.toList =
      ['{'] ++ ([','].intercalate (fields.map compactField) ++ ['}']) := by
    simp [compact, toList_compactFields]
  have apart (f : String × Json) (rest rest' : List Char) :
      compactField f ++ rest ≠ ['}'] ++ rest' := by
    rw [compactField, toList_quote]
    simp
  rw [text, text]
  refine ((Text.sameOnlyIf_enclosed ?_ ?_
    (fun f mem g mem' => sameOnlyIf_compactField (each f mem g mem'))
    (fun f _ => apart f) fun g _ => apart g).prepend _).imp fun fields => ?_
  · exact fun rest c first => by cases first; rfl
  · exact fun rest => ⟨fun c first => by cases first; rfl, by simp⟩
  · exact List.forall₂_eq_eq_eq ▸ fields

/-- **Values that are written alike are the same**, and so is what follows them. -/
theorem sameOnlyIf_compact {a b : Json} (ha : CanonicalNumbers a) (hb : CanonicalNumbers b) :
    SameOnlyIf (StopsAt isNumberPart) a.compact.toList b.compact.toList (a = b) := by
  induction a using Json.induct generalizing b with
  | null =>
    cases b with
    | null => exact fun _ _ _ _ same => ⟨rfl, List.append_cancel_left same⟩
    | _ => exact fun _ _ _ _ same => absurd (kindName_of_compact same) (by simp [kindName])
  | bool x =>
    cases b with
    | bool y =>
      intro rest rest' _ _ same
      cases x <;> cases y <;> simp_all [compact, boolText]
    | _ => exact fun _ _ _ _ same => absurd (kindName_of_compact same) (by simp [kindName])
  | number m =>
    cases b with
    | number n =>
      refine (Text.sameOnlyIf_run (fun c => isNumberPart_of_mem_text)
        fun c => isNumberPart_of_mem_text).imp fun same => ?_
      rw [number_of_text (canonicalNumbers_number.1 ha) (canonicalNumbers_number.1 hb) same]
    | _ => exact fun _ _ _ _ same => absurd (kindName_of_compact same) (by simp [kindName])
  | string s =>
    cases b with
    | string t => exact (sameOnlyIf_quote _ s t).imp (congrArg Json.string)
    | _ => exact fun _ _ _ _ same => absurd (kindName_of_compact same) (by simp [kindName])
  | array xs ih =>
    cases b with
    | array ys =>
      refine (sameOnlyIf_array fun x mem y mem' => ?_).imp (congrArg Json.array)
      exact ih x mem (canonicalNumbers_array.1 ha x mem) (canonicalNumbers_array.1 hb y mem')
    | _ => exact fun _ _ _ _ same => absurd (kindName_of_compact same) (by simp [kindName])
  | object fs ih =>
    cases b with
    | object gs =>
      refine (sameOnlyIf_object fun f mem g mem' => ?_).imp (congrArg Json.object)
      exact ih f mem (canonicalNumbers_object.1 ha f mem) (canonicalNumbers_object.1 hb g mem')
    | _ => exact fun _ _ _ _ same => absurd (kindName_of_compact same) (by simp [kindName])

/-! ## Characters -/

/-- Whether a text holds control characters is decided on the text, not on all characters. -/
theorem shown_of_all {cs : List Char} (all : cs.all (32 ≤ ·.toNat) = true) :
    ∀ c ∈ cs, 32 ≤ c.toNat := by
  simpa using all

theorem shown_of_mem_quote {s : String} : ∀ c ∈ (quote s).toList, 32 ≤ c.toNat := by
  have escaped (d : Char) : ∀ c ∈ escapeChar d, 32 ≤ c.toNat := by
    have digit (n : Nat) : 32 ≤ (hexDigit n).toNat := by
      have all : ∀ d < 16, 32 ≤ (Nat.digitChar d).toNat := by decide
      exact all _ (Nat.mod_lt n (by decide))
    have written := written_escapeChar d
    generalize escapeChar d = text at written ⊢
    cases written with
    | @letter letter stands =>
      have plain : 32 ≤ letter.toNat := by
        unfold simpleEscape? at stands
        split at stands
        any_goals decide
        cases stands
      simpa using plain
    | unicode control => simp [digit]
    | plain quote backslash shown => simpa using shown
  intro c mem
  rw [toList_quote, List.mem_cons, List.mem_append, List.mem_flatMap, List.mem_singleton] at mem
  rcases mem with rfl | ⟨d, -, mem⟩ | rfl
  · decide
  · exact escaped d c mem
  · decide

/-- **A value on one line holds no control characters.** -/
theorem shown_of_mem_compact (value : Json) : ∀ c ∈ value.compact.toList, 32 ≤ c.toNat := by
  induction value using inductDepth with
  | step value ih =>
    cases value with
    | null => exact shown_of_all (by decide)
    | bool b => cases b <;> exact shown_of_all (by decide)
    | number n =>
      intro c mem
      have part := isNumberPart_of_mem_text (n := n) mem
      simp only [isNumberPart, Bool.or_eq_true, beq_iff_eq, Char.isDigit_iff_toNat] at part
      rcases part with (((digit | rfl) | rfl) | rfl) | rfl
      · exact Nat.le_trans (by decide) digit.1
      all_goals decide
    | string s => exact shown_of_mem_quote
    | array items =>
      have inside : ∀ c ∈ (compactItems items).toList, 32 ≤ c.toNat := by
        rw [toList_compactItems]
        refine Text.forall_mem_intercalate (shown_of_all (by decide))
          (List.forall_mem_map.2 fun item mem => ?_)
        exact ih item (depth_item_lt mem)
      simpa [compact, or_imp, forall_and] using inside
    | object fields =>
      have inside : ∀ c ∈ (compactFields fields).toList, 32 ≤ c.toNat := by
        rw [toList_compactFields]
        refine Text.forall_mem_intercalate (shown_of_all (by decide))
          (List.forall_mem_map.2 fun field mem => ?_)
        rw [compactField, List.forall_mem_append, List.forall_mem_cons]
        exact ⟨shown_of_mem_quote, by decide, ih field.2 (depth_field_lt mem)⟩
      simpa [compact, or_imp, forall_and] using inside

end Bindery.Json
