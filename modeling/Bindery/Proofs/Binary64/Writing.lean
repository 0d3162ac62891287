import Bindery.Proofs.Binary64.Rounding
import Mathlib.Data.List.TakeWhile

/-!
# Decimals as texts

A decimal is written in one of four layouts, and each can be read back: what its digits stand for is
shifted by the digits behind the point and by the exponent. So a text stands for one number, and two
numbers that are written alike are the same.
-/

namespace Bindery.Binary64
set_option autoImplicit false

/-! ## Reading a text -/

/-- What digits with at most one point among them stand for. -/
def pointValue (cs : List Char) : ℚ :=
  Nat.ofDigitChars 10 (cs.filter (· != '.')) 0 *
    10 ^ (-(((cs.dropWhile (· != '.')).drop 1).length : ℤ))

/-- What an exponent with its sign stands for. -/
def exponentValue : List Char → ℤ
  | 'e' :: '-' :: digits => -Nat.ofDigitChars 10 digits 0
  | 'e' :: '+' :: digits => Nat.ofDigitChars 10 digits 0
  | _ => 0

/-- The number that the text of a decimal stands for. -/
def textValue (cs : List Char) : ℚ :=
  pointValue (cs.takeWhile (· != 'e')) * 10 ^ exponentValue (cs.dropWhile (· != 'e'))

section Reading

variable {whole fraction : List Char}

theorem ne_of_isDigit {c d : Char} (digit : c.isDigit = true) (other : d.isDigit = false) : c ≠ d := by
  rintro rfl
  rw [digit] at other
  cases other

theorem pointValue_digits (digits : ∀ c ∈ whole, c.isDigit = true) :
    pointValue whole = Nat.ofDigitChars 10 whole 0 := by
  have plain : ∀ c ∈ whole, (c != '.') = true := fun c mem =>
    bne_iff_ne.2 (ne_of_isDigit (digits c mem) rfl)
  rw [pointValue, List.filter_eq_self.2 plain, List.dropWhile_eq_nil_iff.2 plain]
  simp

theorem pointValue_point (digits : ∀ c ∈ whole, c.isDigit = true)
    (digits' : ∀ c ∈ fraction, c.isDigit = true) :
    pointValue (whole ++ '.' :: fraction) =
      Nat.ofDigitChars 10 (whole ++ fraction) 0 * 10 ^ (-(fraction.length : ℤ)) := by
  have plain : ∀ c ∈ whole, (c != '.') = true := fun c mem =>
    bne_iff_ne.2 (ne_of_isDigit (digits c mem) rfl)
  have plain' : ∀ c ∈ fraction, (c != '.') = true := fun c mem =>
    bne_iff_ne.2 (ne_of_isDigit (digits' c mem) rfl)
  rw [pointValue, List.dropWhile_append_of_pos plain, List.filter_append,
    List.filter_eq_self.2 plain, List.filter_cons_of_neg (by simp), List.filter_eq_self.2 plain',
    List.dropWhile_cons_of_neg (by simp), List.drop_one, List.tail_cons]

theorem textValue_plain (noMark : ∀ c ∈ whole, c ≠ 'e') : textValue whole = pointValue whole := by
  have plain : ∀ c ∈ whole, (c != 'e') = true := fun c mem => bne_iff_ne.2 (noMark c mem)
  rw [textValue, List.takeWhile_eq_self_iff.2 plain, List.dropWhile_eq_nil_iff.2 plain]
  simp [exponentValue]

theorem textValue_exponent (noMark : ∀ c ∈ whole, c ≠ 'e') (e : ℤ) :
    textValue (whole ++ 'e' :: exponentText e) = pointValue whole * 10 ^ e := by
  have plain : ∀ c ∈ whole, (c != 'e') = true := fun c mem => bne_iff_ne.2 (noMark c mem)
  have value : exponentValue ('e' :: exponentText e) = e := by
    unfold exponentText
    split
    · next down =>
      rw [exponentValue, Nat.ofDigitChars_ten_toDigits]
      omega
    · next up =>
      rw [exponentValue, Nat.ofDigitChars_ten_toDigits]
      omega
  rw [textValue, List.takeWhile_append_of_pos plain, List.dropWhile_append_of_pos plain,
    List.takeWhile_cons_of_neg (by simp), List.append_nil, List.dropWhile_cons_of_neg (by simp),
    value]

end Reading

/-! ## Reading back -/

theorem isDigit_zeros {n : Nat} {c : Char} (mem : c ∈ zeros n) : c.isDigit = true := by
  rw [List.eq_of_mem_replicate mem]
  rfl

/-- Digits around a point, without an exponent. -/
theorem textValue_point {whole fraction : List Char} (digits : ∀ c ∈ whole, c.isDigit = true)
    (digits' : ∀ c ∈ fraction, c.isDigit = true) :
    textValue (whole ++ '.' :: fraction) =
      Nat.ofDigitChars 10 (whole ++ fraction) 0 * 10 ^ (-(fraction.length : ℤ)) := by
  rw [textValue_plain, pointValue_point digits digits']
  intro c mem
  rcases List.mem_append.1 mem with mem | mem
  · exact ne_of_isDigit (digits c mem) rfl
  · rcases List.mem_cons.1 mem with rfl | mem
    · decide
    · exact ne_of_isDigit (digits' c mem) rfl

/-- One digit, others behind a point if there are any, and an exponent. -/
theorem textValue_scientific {first : Char} {others : List Char} (digit : first.isDigit = true)
    (digits : ∀ c ∈ others, c.isDigit = true) (e : ℤ) :
    textValue (first :: ((if others = [] then [] else '.' :: others) ++ 'e' :: exponentText e)) =
      Nat.ofDigitChars 10 (first :: others) 0 * 10 ^ (e - others.length) := by
  have one : ∀ c ∈ [first], c.isDigit = true := by simpa using digit
  have mark {c : Char} (digit : c.isDigit = true) : c ≠ 'e' := ne_of_isDigit digit rfl
  by_cases none : others = []
  · have noMark : ∀ c ∈ [first], c ≠ 'e' := by simpa using mark digit
    have value := textValue_exponent noMark e
    rw [pointValue_digits one] at value
    simpa [none] using value
  · have noMark : ∀ c ∈ first :: '.' :: others, c ≠ 'e' := by
      simpa [mark digit] using fun c mem => mark (digits c mem)
    have value := textValue_exponent noMark e
    have point := pointValue_point one digits
    rw [List.singleton_append, List.singleton_append] at point
    rw [point, mul_assoc, ← zpow_add₀ (by norm_num), neg_add_eq_sub] at value
    rw [if_neg none]
    exact value

/-! ## Layouts -/

/-- How a decimal is written: with digits on both sides of a point, or with an exponent. -/
inductive Layout (d : Decimal) : List Char → Prop
  | point {whole fraction : List Char} (some : whole ≠ []) (digits : ∀ c ∈ whole, c.isDigit = true)
      (digits' : ∀ c ∈ fraction, c.isDigit = true)
      (value : (Nat.ofDigitChars 10 (whole ++ fraction) 0 : ℚ) * 10 ^ (-(fraction.length : ℤ)) =
        d.value) : Layout d (whole ++ '.' :: fraction)
  | scientific {first : Char} {others : List Char} {e : ℤ} (digit : first.isDigit = true)
      (digits : ∀ c ∈ others, c.isDigit = true)
      (value : (Nat.ofDigitChars 10 (first :: others) 0 : ℚ) * 10 ^ (e - others.length) = d.value) :
      Layout d (first :: ((if others = [] then [] else '.' :: others) ++ 'e' :: exponentText e))

theorem layout_text (d : Decimal) : Layout d d.text := by
  have digits : ∀ c ∈ Nat.toDigits 10 d.digits, c.isDigit = true := fun c mem =>
    Nat.isDigit_of_mem_toDigits (by decide) (by decide) mem
  have number : Nat.ofDigitChars 10 (Nat.toDigits 10 d.digits) 0 = d.digits :=
    Nat.ofDigitChars_ten_toDigits
  have some : Nat.toDigits 10 d.digits ≠ [] := Nat.toDigits_ne_nil
  unfold Decimal.text
  generalize Nat.toDigits 10 d.digits = ds at digits number some
  have positive : 0 < ds.length := List.length_pos_iff.2 some
  have none : ∀ n, ∀ c ∈ zeros n, c.isDigit = true := fun n c mem => isDigit_zeros mem
  simp only
  split
  · next whole =>
    simp only [Bool.and_eq_true, decide_eq_true_eq] at whole
    obtain ⟨n, exponent⟩ := Int.eq_ofNat_of_zero_le whole.1
    have digits' : ∀ c ∈ ['0'], c.isDigit = true := List.forall_mem_singleton.2 rfl
    refine .point (by simp [some])
      (fun c mem => (List.mem_append.1 mem).elim (digits c) (none _ c)) digits' ?_
    have tenfold : (Nat.ofDigitChars 10 ['0'] (10 ^ n * d.digits) : ℚ) = 10 * (10 ^ n * d.digits) := by
      simp [Nat.ofDigitChars_cons]
    rw [exponent, Int.toNat_natCast, zeros, Nat.ofDigitChars_append, Nat.ofDigitChars_append,
      number, Nat.ofDigitChars_replicate_zero, tenfold, Decimal.value, exponent,
      List.length_singleton, zpow_natCast, Nat.cast_one, zpow_neg_one]
    ring
  split
  · next whole inside =>
    simp only [Bool.and_eq_true, decide_eq_true_eq, not_and, not_le] at whole inside
    rw [List.append_assoc, List.singleton_append]
    refine .point ?_ (fun c mem => digits c (List.mem_of_mem_take mem))
      (fun c mem => digits c (List.mem_of_mem_drop mem)) ?_
    · simp only [ne_eq, List.take_eq_nil_iff, some, or_false]
      omega
    · rw [List.take_append_drop, number, Decimal.value, List.length_drop]
      congr 2
      omega
  split
  · next small =>
    simp only [Bool.and_eq_true, decide_eq_true_eq] at small
    have digit : ∀ c ∈ ['0'], c.isDigit = true := List.forall_mem_singleton.2 rfl
    have digits' : ∀ c ∈ zeros (-(d.exponent + ds.length)).toNat ++ ds, c.isDigit = true :=
      fun c mem => (List.mem_append.1 mem).elim (none _ c) (digits c)
    rw [List.append_assoc]
    show Layout d (['0'] ++ '.' :: (zeros _ ++ ds))
    refine .point (List.cons_ne_nil _ _) digit digits' ?_
    have nought (cs : List Char) : Nat.ofDigitChars 10 ('0' :: cs) 0 = Nat.ofDigitChars 10 cs 0 := rfl
    rw [List.singleton_append, nought, zeros, Nat.ofDigitChars_append,
      Nat.ofDigitChars_replicate_zero, Nat.mul_zero, number, Decimal.value, List.length_append,
      List.length_replicate]
    congr 2
    omega
  · obtain ⟨first, others, rfl⟩ := List.exists_cons_of_ne_nil some
    obtain ⟨digit, digits⟩ := List.forall_mem_cons.1 digits
    have fraction : (if ((first :: others).length == 1) = true then []
        else ['.'] ++ (first :: others).drop 1) = if others = [] then [] else '.' :: others := by
      cases others <;> simp
    rw [fraction]
    have value : (Nat.ofDigitChars 10 (first :: others) 0 : ℚ) *
        10 ^ (d.exponent + (first :: others).length - 1 - others.length) = d.value := by
      rw [number, Decimal.value, List.length_cons]
      congr 2
      push_cast
      ring
    simpa using Layout.scientific digit digits value

namespace Layout

variable {d : Decimal} {cs : List Char}

/-- **The text of a decimal stands for its number.** -/
theorem textValue_eq (h : Layout d cs) : textValue cs = d.value := by
  cases h with
  | point _ digits digits' value => rw [textValue_point digits digits', value]
  | scientific digit digits value => rw [textValue_scientific digit digits, value]

theorem head_isDigit (h : Layout d cs) : ∃ first rest, cs = first :: rest ∧ first.isDigit = true := by
  cases h with
  | @point whole _ some digits _ _ =>
    obtain ⟨first, rest, rfl⟩ := List.exists_cons_of_ne_nil some
    exact ⟨first, _, rfl, digits first List.mem_cons_self⟩
  | scientific digit _ _ => exact ⟨_, _, rfl, digit⟩

/-- There is always a point or an exponent. -/
theorem marked (h : Layout d cs) : ∃ c ∈ cs, c ∈ ['.', 'e'] := by
  cases h with
  | point => exact ⟨'.', by simp, by simp⟩
  | scientific => exact ⟨'e', by simp, by simp⟩

theorem mem_exponentText {e : ℤ} {c : Char} (mem : c ∈ exponentText e) :
    c.isDigit = true ∨ c ∈ ['+', '-'] := by
  unfold exponentText at mem
  rcases List.mem_cons.1 mem with rfl | mem
  · split <;> simp
  · exact Or.inl (Nat.isDigit_of_mem_toDigits (by decide) (by decide) mem)

theorem mem (h : Layout d cs) {c : Char} (mem : c ∈ cs) :
    c.isDigit = true ∨ c ∈ ['.', 'e', '+', '-'] := by
  cases h with
  | point _ digits digits' _ =>
    rcases List.mem_append.1 mem with mem | mem
    · exact Or.inl (digits c mem)
    · rcases List.mem_cons.1 mem with rfl | mem
      · exact Or.inr (by simp)
      · exact Or.inl (digits' c mem)
  | @scientific _ others _ digit digits _ =>
    rcases List.mem_cons.1 mem with rfl | mem
    · exact Or.inl digit
    rcases List.mem_append.1 mem with mem | mem
    · split at mem
      · cases mem
      · rcases List.mem_cons.1 mem with rfl | mem
        · exact Or.inr (by simp)
        · exact Or.inl (digits c mem)
    · rcases List.mem_cons.1 mem with rfl | mem
      · exact Or.inr (by simp)
      · refine (mem_exponentText mem).imp_right fun sign => ?_
        exact List.mem_cons_of_mem _ (List.mem_cons_of_mem _ sign)

end Layout

/-! ## Numbers -/

/-- A text starts with a sign exactly if its number is negative. -/
theorem negative_iff (x : Binary64) : x.negative = true ↔ x.text.head? = some '-' := by
  obtain ⟨first, rest, equal, digit⟩ := (layout_text x.shortest).head_isDigit
  unfold text
  rw [equal]
  cases x.negative with
  | true => simp
  | false => simpa using ne_of_isDigit digit rfl

/-- **Numbers that are written alike are the same.** -/
theorem eq_of_text_eq {x y : Binary64} (hx : Canonical x) (hy : Canonical y)
    (same : x.text = y.text) : x = y := by
  have sign : x.negative = y.negative := by
    rw [Bool.eq_iff_iff, negative_iff, negative_iff, same]
  have digits : x.shortest.text = y.shortest.text := by
    unfold text at same
    rw [sign] at same
    exact List.append_cancel_left same
  have value : x.shortest.value = y.shortest.value := by
    rw [← (layout_text x.shortest).textValue_eq, digits, (layout_text y.shortest).textValue_eq]
  obtain ⟨significand, exponent⟩ := eq_of_value_shortest hx hy value
  cases x
  cases y
  simp_all

end Bindery.Binary64
