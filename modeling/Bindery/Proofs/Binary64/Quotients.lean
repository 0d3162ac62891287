import Bindery.Proofs.Binary64.Rounding

/-!
# Rounding gives canonical numbers

The exponent that a quotient is rounded at leaves 53 binary digits before the point, or fewer at the
least exponent. So what it is rounded to is canonical, and so are rounded products and quotients.
-/

namespace Bindery.Binary64
set_option autoImplicit false

variable {num den : Nat}

/-- The quotient over a power of two. -/
theorem scaled_eq (num den : Nat) (e : Int) :
    ((scaled num den e).1 : ℚ) / (scaled num den e).2 = num / den / 2 ^ e := by
  unfold scaled
  rw [Nat.pow_eq, Nat.pow_eq]
  rcases Int.le_total 0 e with up | down
  · obtain ⟨n, rfl⟩ := Int.eq_ofNat_of_zero_le up
    have none : (-(n : Int)).toNat = 0 := by omega
    rw [none]
    push_cast
    rw [Int.toNat_natCast, zpow_natCast, mul_one, div_div]
  · obtain ⟨n, rfl⟩ : ∃ n : Nat, e = -n := ⟨(-e).toNat, by omega⟩
    have none : (-(n : Int)).toNat = 0 := by omega
    have some : (- -(n : Int)).toNat = n := by omega
    rw [none, some, zpow_neg, zpow_natCast]
    push_cast
    rw [mul_one, div_inv_eq_mul, mul_div_right_comm]

theorem scaled_pos (num : Nat) (some : den ≠ 0) (e : Int) : 0 < (scaled num den e).2 :=
  Nat.mul_pos (Nat.pos_of_ne_zero some) (Nat.pow_pos (by decide))

/-- The quotient at the exponent of its leading digits. -/
theorem leading_bounds (hn : num ≠ 0) (hd : den ≠ 0) :
    (2 ^ 52 : ℚ) < num / den / 2 ^ ((num.log2 : Int) - den.log2 - 53) ∧
      num / den / 2 ^ ((num.log2 : Int) - den.log2 - 53) < (2 ^ 54 : ℚ) := by
  have numLow : (2 : ℚ) ^ num.log2 ≤ num := by exact_mod_cast Nat.log2_self_le hn
  have numHigh : (num : ℚ) < 2 ^ (num.log2 + 1) := by exact_mod_cast Nat.lt_log2_self
  have denLow : (2 : ℚ) ^ den.log2 ≤ den := by exact_mod_cast Nat.log2_self_le hd
  have denHigh : (den : ℚ) < 2 ^ (den.log2 + 1) := by exact_mod_cast Nat.lt_log2_self
  generalize num.log2 = L at *
  generalize den.log2 = D at *
  have scale : (2 : ℚ) ^ ((L : Int) - D - 53) = 2 ^ L / 2 ^ D / 2 ^ 53 := by
    rw [zpow_sub₀ (by norm_num), zpow_sub₀ (by norm_num), zpow_natCast, zpow_natCast]
    norm_cast
  have den0 : (0 : ℚ) < den := by exact_mod_cast Nat.pos_of_ne_zero hd
  have pl : (0 : ℚ) < 2 ^ L := by positivity
  have pd : (0 : ℚ) < 2 ^ D := by positivity
  have value : (num : ℚ) / den / (2 ^ L / 2 ^ D / 2 ^ 53) = num * 2 ^ D * 2 ^ 53 / (den * 2 ^ L) := by
    field_simp
  rw [scale, value, lt_div_iff₀ (by positivity), div_lt_iff₀ (by positivity)]
  rw [pow_succ] at numHigh denHigh
  constructor
  · nlinarith
  · nlinarith

/-- The exponent of a quotient leaves at most 53 digits, and exactly as many above the least one. -/
theorem exponentOf_bounds (hn : num ≠ 0) (hd : den ≠ 0) :
    minExponent ≤ exponentOf num den ∧
      (num / den / 2 ^ exponentOf num den : ℚ) < 2 ^ 53 ∧
      (exponentOf num den = minExponent ∨ 2 ^ 52 ≤ (num / den / 2 ^ exponentOf num den : ℚ)) := by
  obtain ⟨low, high⟩ := leading_bounds hn hd
  have quotient := scaled_eq num den ((num.log2 : Int) - den.log2 - 53)
  have positive := scaled_pos num hd ((num.log2 : Int) - den.log2 - 53)
  have first : ∃ e : Int, exponentOf num den = max minExponent e ∧
      (num / den / 2 ^ e : ℚ) < 2 ^ 53 ∧ 2 ^ 52 ≤ (num / den / 2 ^ e : ℚ) := by
    refine ⟨_, rfl, ?_⟩
    rw [Nat.pow_eq]
    generalize scaled num den ((num.log2 : Int) - den.log2 - 53) = q at quotient positive ⊢
    have denominator : (0 : ℚ) < q.2 := by exact_mod_cast positive
    split
    · next wide =>
      have wide : (2 ^ 53 : ℚ) ≤ q.1 / q.2 := by
        rw [le_div_iff₀ denominator]
        exact_mod_cast (Nat.le_div_iff_mul_le positive).1 wide
      rw [quotient] at wide
      rw [zpow_add_one₀ (by norm_num), ← div_div]
      constructor <;> linarith
    · next narrow =>
      have narrow : (q.1 / q.2 : ℚ) < 2 ^ 53 := by
        rw [div_lt_iff₀ denominator]
        exact_mod_cast (Nat.div_lt_iff_lt_mul positive).1 (Nat.lt_of_not_le narrow)
      rw [quotient] at narrow
      exact ⟨narrow, low.le⟩
  obtain ⟨e, equal, few, many⟩ := first
  rw [equal]
  refine ⟨le_max_left _ _, ?_, ?_⟩
  · refine lt_of_le_of_lt ?_ few
    have ratio : (0 : ℚ) ≤ num / den := by positivity
    exact div_le_div_of_nonneg_left ratio (by positivity)
      (zpow_le_zpow_right₀ (by norm_num) (le_max_right _ _))
  · rcases le_total minExponent e with above | under
    · rw [max_eq_right above]
      exact Or.inr many
    · exact Or.inl (max_eq_left under)

/-- A rounded quotient is its whole part or the next natural. -/
theorem roundQuotient_eq (num den : Nat) :
    roundQuotient num den = num / den ∨ roundQuotient num den = num / den + 1 := by
  unfold roundQuotient
  simp only
  split
  · exact Or.inr rfl
  · exact Or.inl rfl

/-- **What a quotient is rounded to is canonical.** -/
theorem canonical_ofQuotient? {negative : Bool} (hd : den ≠ 0) {x : Binary64}
    (rounded : ofQuotient? negative num den = some x) : Canonical x := by
  unfold ofQuotient? at rounded
  split at rounded
  · cases rounded
    exact canonical_zero negative
  · next hn =>
    obtain ⟨least, few, many⟩ := exponentOf_bounds hn hd
    rw [← scaled_eq] at few many
    have positive := scaled_pos num hd (exponentOf num den)
    simp only [Nat.pow_eq] at rounded
    generalize exponentOf num den = e at *
    generalize scaled num den e = q at *
    have denominator : (0 : ℚ) < q.2 := by exact_mod_cast positive
    have whole : q.1 / q.2 < 2 ^ 53 := by
      rw [Nat.div_lt_iff_lt_mul positive]
      rw [div_lt_iff₀ denominator] at few
      exact_mod_cast few
    have normal : 2 ^ 52 ≤ q.1 / q.2 ∨ e = minExponent := by
      refine many.symm.imp_left fun many => ?_
      rw [Nat.le_div_iff_mul_le positive]
      rw [le_div_iff₀ denominator] at many
      exact_mod_cast many
    have next := roundQuotient_eq q.1 q.2
    generalize roundQuotient q.1 q.2 = n at next rounded
    split at rounded
    · split at rounded
      · cases rounded
      · cases rounded
        refine ⟨by norm_num, ?_, Or.inl (le_refl _)⟩
        show minExponent ≤ e + 1
        omega
    · split at rounded
      · cases rounded
      · cases rounded
        refine ⟨?_, least, normal.imp_left fun enough => ?_⟩
        · show n < 2 ^ 53
          omega
        · show 2 ^ 52 ≤ n
          omega

theorem canonical_mul? {x y z : Binary64} (product : x.mul? y = some z) : Canonical z :=
  canonical_ofQuotient? (Nat.mul_ne_zero (by simp [quotient]) (by simp [quotient])) product

theorem canonical_div? {x y z : Binary64} (some : y.isZero = false) (ratio : x.div? y = .some z) :
    Canonical z := by
  have positive : y.significand ≠ 0 := by simpa [isZero] using some
  exact canonical_ofQuotient? (Nat.mul_ne_zero (by simp [quotient]) (by simp [quotient, positive])) ratio

end Bindery.Binary64
