import Bindery.Binary64.Shortest
import Mathlib.Algebra.Order.Field.Power
import Mathlib.Data.Rat.Cast.Order
import Mathlib.Tactic.FieldSimp
import Mathlib.Tactic.Linarith
import Mathlib.Tactic.Positivity
import Mathlib.Tactic.Ring

/-!
# Intervals that round to a number

A `Canonical` number is in the form in which each floating point number has one significand and one
exponent. The reals `Around` it reach halfway to its neighbours, and include the ends only if its
significand is even. So no real is around two canonical numbers, and a shortest decimal, which is
around its number, stands for no other.
-/

namespace Bindery.Binary64
set_option autoImplicit false

/-- The significand has 53 binary digits, or fewer at the least exponent. -/
structure Canonical (x : Binary64) : Prop where
  bounded : x.significand < 2 ^ 53
  least : minExponent ≤ x.exponent
  normal : 2 ^ 52 ≤ x.significand ∨ x.exponent = minExponent

instance (x : Binary64) : Decidable (Canonical x) :=
  decidable_of_iff (x.significand < 2 ^ 53 ∧ minExponent ≤ x.exponent ∧
      (2 ^ 52 ≤ x.significand ∨ x.exponent = minExponent))
    ⟨fun h => ⟨h.1, h.2.1, h.2.2⟩, fun h => ⟨h.bounded, h.least, h.normal⟩⟩

theorem canonical_zero (negative : Bool) : Canonical (zero negative) :=
  ⟨Nat.pow_pos (by decide), le_refl minExponent, Or.inr rfl⟩

/-- How many quarters of a unit the interval of a number reaches down. -/
def below (x : Binary64) : Nat :=
  if x.significand = 2 ^ 52 ∧ minExponent < x.exponent then 1 else 2

/-- A quarter of the unit of a number's significand. -/
def quarter (x : Binary64) : ℚ := 2 ^ (x.exponent - 2)

/-- A real rounds to the absolute value of a number. -/
structure Around (x : Binary64) (r : ℚ) : Prop where
  low : (4 * x.significand - x.below : ℚ) * x.quarter ≤ r
  high : r ≤ (4 * x.significand + 2 : ℚ) * x.quarter
  inside : x.significand % 2 = 1 →
    (4 * x.significand - x.below : ℚ) * x.quarter < r ∧ r < (4 * x.significand + 2 : ℚ) * x.quarter

theorem quarter_pos (x : Binary64) : 0 < x.quarter := by
  unfold quarter
  positivity

theorem below_le (x : Binary64) : 1 ≤ x.below ∧ x.below ≤ 2 := by
  unfold below
  split <;> simp

/-! ## No real is around two numbers -/

/-- At one exponent, intervals of different significands have no real in common. -/
theorem not_around_of_lt {x y : Binary64} (hx : Canonical x) {r : ℚ}
    (exponents : x.exponent = y.exponent) (less : x.significand < y.significand)
    (around : Around x r) (around' : Around y r) : False := by
  have same : x.quarter = y.quarter := by rw [quarter, quarter, exponents]
  have two : y.below = 2 := by
    unfold below
    rw [if_neg]
    rintro ⟨least, above⟩
    -- Only a number at the least exponent has a smaller significand than the least normal one.
    rcases hx.normal with normal | bottom
    · omega
    · omega
  have pos := quarter_pos y
  have next : (x.significand : ℚ) + 1 ≤ y.significand := by exact_mod_cast less
  have high := around.high
  have low := around'.low
  rw [same] at high
  rw [two] at low
  have ends : (4 * y.significand - 2 : ℚ) ≤ 4 * x.significand + 2 :=
    le_of_mul_le_mul_right (by exact_mod_cast low.trans high) pos
  have neighbours : (y.significand : ℚ) = x.significand + 1 := by linarith
  have neighbours : y.significand = x.significand + 1 := by exact_mod_cast neighbours
  rcases Nat.mod_two_eq_zero_or_one x.significand with even | odd
  · have strict := (around'.inside (by omega)).1
    rw [two, neighbours] at strict
    push_cast at strict
    linarith
  · have strict := (around.inside odd).2
    rw [same] at strict
    rw [neighbours] at low
    push_cast at low
    linarith

/-- Intervals of numbers with different exponents have no real in common. -/
theorem not_around_of_exponent_lt {x y : Binary64} (hx : Canonical x) (hy : Canonical y) {r : ℚ}
    (less : x.exponent < y.exponent) (around : Around x r) (around' : Around y r) : False := by
  have least := hx.least
  have normal : 2 ^ 52 ≤ y.significand := by
    rcases hy.normal with normal | bottom
    · exact normal
    · omega
  have scale : 2 * x.quarter ≤ y.quarter := by
    have more : x.exponent - 2 + 1 ≤ y.exponent - 2 := by omega
    calc 2 * x.quarter = 2 ^ (x.exponent - 2 + 1) := by
          rw [quarter, zpow_add_one₀ (by norm_num), mul_comm]
      _ ≤ y.quarter := zpow_le_zpow_right₀ (by norm_num) more
  have pos := quarter_pos x
  have foot : (2 ^ 54 - 1 : ℚ) ≤ 4 * y.significand - y.below := by
    have natural : 2 ^ 54 - 1 + y.below ≤ 4 * y.significand := by
      have few := below_le y
      by_cases power : y.significand = 2 ^ 52
      · have one : y.below = 1 := if_pos ⟨power, by omega⟩
        omega
      · omega
    have rational : ((2 ^ 54 - 1 : ℕ) : ℚ) + y.below ≤ 4 * y.significand := by
      exact_mod_cast natural
    norm_num at rational ⊢
    linarith
  have low : (2 ^ 55 - 2 : ℚ) * x.quarter ≤ r := by
    calc (2 ^ 55 - 2 : ℚ) * x.quarter = (2 ^ 54 - 1) * (2 * x.quarter) := by ring
      _ ≤ (4 * y.significand - y.below) * y.quarter := by
        apply mul_le_mul foot scale (by positivity)
        linarith [show (0 : ℚ) ≤ 2 ^ 54 - 1 by norm_num]
      _ ≤ r := around'.low
  have greatest : (2 ^ 55 - 2 : ℚ) ≤ 4 * x.significand + 2 :=
    le_of_mul_le_mul_right (low.trans around.high) pos
  have greatest : x.significand = 2 ^ 53 - 1 := by
    have natural : 2 ^ 55 ≤ 4 * x.significand + 4 := by
      have rational : (2 ^ 55 : ℚ) ≤ 4 * x.significand + 4 := by linarith
      exact_mod_cast rational
    have bounded := hx.bounded
    omega
  have strict := (around.inside (by rw [greatest]; norm_num)).2
  rw [greatest] at strict
  norm_num at strict low
  linarith

/-- **Numbers are told apart by any real that rounds to them.** -/
theorem eq_of_around {x y : Binary64} (hx : Canonical x) (hy : Canonical y) {r : ℚ}
    (around : Around x r) (around' : Around y r) :
    x.significand = y.significand ∧ x.exponent = y.exponent := by
  rcases lt_trichotomy x.exponent y.exponent with less | same | more
  · exact (not_around_of_exponent_lt hx hy less around around').elim
  · rcases lt_trichotomy x.significand y.significand with less | equal | more
    · exact (not_around_of_lt hx same less around around').elim
    · exact ⟨equal, same⟩
    · exact (not_around_of_lt hy same.symm more around' around).elim
  · exact (not_around_of_exponent_lt hy hx more around' around).elim

/-! ## The shortest decimal is around its number -/

/-- The number that a decimal stands for. -/
def Decimal.value (d : Decimal) : ℚ :=
  d.digits * 10 ^ d.exponent

/-- The factor of an interval's naturals, over its power of ten, is a quarter of a unit. -/
theorem factor_interval (e : Int) :
    ((Nat.pow 2 e.toNat * Nat.pow 5 (-e).toNat : ℕ) : ℚ) * 10 ^ min e 0 = 2 ^ e := by
  rw [Nat.pow_eq, Nat.pow_eq]
  rcases Int.le_total 0 e with up | down
  · obtain ⟨n, rfl⟩ := Int.eq_ofNat_of_zero_le up
    have none : (-(n : Int)).toNat = 0 := by omega
    have scale : min (n : Int) 0 = 0 := by omega
    rw [none, scale]
    simp
  · obtain ⟨n, rfl⟩ : ∃ n : Nat, e = -n := ⟨(-e).toNat, by omega⟩
    have none : (-(n : Int)).toNat = 0 := by omega
    have some : (- -(n : Int)).toNat = n := by omega
    have scale : min (-(n : Int)) 0 = -n := by omega
    have tens : (10 : ℚ) ^ n = 2 ^ n * 5 ^ n := by
      rw [← mul_pow]
      norm_num
    rw [none, some, scale, zpow_neg, zpow_neg, zpow_natCast, zpow_natCast, tens]
    push_cast
    field_simp

/-- What an interval holds rounds to its number. -/
theorem around_of_holds {x : Binary64} (some : x.isZero = false) {n : Nat}
    (holds : x.interval.holds n = true) : Around x (n * 10 ^ x.interval.exponent) := by
  have positive : 1 ≤ x.significand := by
    simp only [isZero, beq_eq_false_iff_ne] at some
    omega
  have few := below_le x
  have gap : (if x.significand == Nat.pow 2 52 && minExponent < x.exponent then 1 else 2) =
      x.below := by
    simp [below]
  have scale : ((Nat.pow 2 (x.exponent - 2).toNat * Nat.pow 5 (-(x.exponent - 2)).toNat : ℕ) : ℚ) *
      10 ^ x.interval.exponent = x.quarter := factor_interval (x.exponent - 2)
  generalize factor : Nat.pow 2 (x.exponent - 2).toNat * Nat.pow 5 (-(x.exponent - 2)).toNat = f
    at scale
  have lowEnd : x.interval.low = (4 * x.significand - x.below) * f := by
    rw [← factor, ← gap]
    rfl
  have highEnd : x.interval.high = (4 * x.significand + 2) * f := by
    rw [← factor]
    rfl
  have tens : (0 : ℚ) < 10 ^ x.interval.exponent := by positivity
  have low : (x.interval.low : ℚ) * 10 ^ x.interval.exponent =
      (4 * x.significand - x.below) * x.quarter := by
    rw [lowEnd, ← scale]
    push_cast [Nat.cast_sub (show x.below ≤ 4 * x.significand by omega)]
    ring
  have high : (x.interval.high : ℚ) * 10 ^ x.interval.exponent =
      (4 * x.significand + 2) * x.quarter := by
    rw [highEnd, ← scale]
    push_cast
    ring
  have ends : x.interval.low ≤ n ∧ n ≤ x.interval.high ∧
      (x.significand % 2 = 1 → x.interval.low < n ∧ n < x.interval.high) := by
    have closed : x.interval.closed = (x.significand % 2 == 0) := rfl
    unfold Interval.holds at holds
    rw [closed] at holds
    split at holds
    · next even =>
      simp only [Bool.and_eq_true, decide_eq_true_eq, beq_iff_eq] at holds even
      exact ⟨holds.1, holds.2, by omega⟩
    · simp only [Bool.and_eq_true, decide_eq_true_eq] at holds
      exact ⟨by omega, by omega, fun _ => holds⟩
  refine ⟨?_, ?_, fun odd => ?_⟩
  · rw [← low]
    exact mul_le_mul_of_nonneg_right (by exact_mod_cast ends.1) tens.le
  · rw [← high]
    exact mul_le_mul_of_nonneg_right (by exact_mod_cast ends.2.1) tens.le
  · obtain ⟨above, under⟩ := ends.2.2 odd
    rw [← low, ← high]
    exact ⟨mul_lt_mul_of_pos_right (by exact_mod_cast above) tens,
      mul_lt_mul_of_pos_right (by exact_mod_cast under) tens⟩

/-- A number lies in its own interval. -/
theorem holds_value {x : Binary64} (some : x.isZero = false) :
    x.interval.holds x.interval.value = true := by
  have positive : 1 ≤ x.significand := by
    simp only [isZero, beq_eq_false_iff_ne] at some
    omega
  have factor : 0 < Nat.pow 2 (x.exponent - 2).toNat * Nat.pow 5 (-(x.exponent - 2)).toNat :=
    Nat.mul_pos (Nat.pow_pos (by decide)) (Nat.pow_pos (by decide))
  have low : x.interval.low < x.interval.value := by
    apply Nat.mul_lt_mul_of_pos_right _ factor
    split <;> omega
  have high : x.interval.value < x.interval.high :=
    Nat.mul_lt_mul_of_pos_right (by omega) factor
  unfold Interval.holds
  split <;> simp <;> omega

/-- What is found when an interval's value is cut lies in the interval. -/
theorem Interval.holds_cutAt {i : Interval} {cut q : Nat} (found : i.cutAt cut = some q) :
    i.holds (q * 10 ^ cut) = true := by
  unfold cutAt at found
  simp only [Nat.pow_eq] at found
  split at found
  · next both =>
    obtain ⟨down, up⟩ := Bool.and_eq_true_iff.1 both
    cases found
    split
    · exact down
    · exact up
  · split at found
    · next down =>
      cases found
      exact down
    · split at found
      · next up =>
        cases found
        exact up
      · cases found

/-- The decimal found for an interval stands for a natural that it holds. -/
theorem Interval.exists_holds_search {i : Interval} (value : i.holds i.value = true) (cut : Nat) :
    ∃ n, i.holds n = true ∧ (i.search cut).value = n * 10 ^ i.exponent := by
  induction cut with
  | zero => exact ⟨i.value, value, rfl⟩
  | succ cut ih =>
    unfold search
    split
    · next q found =>
      refine ⟨q * 10 ^ (cut + 1), holds_cutAt found, ?_⟩
      rw [Decimal.value, zpow_add₀ (by norm_num), zpow_natCast]
      push_cast
      ring
    · exact ih

/-- A decimal without its trailing zeros stands for the same number. -/
theorem Decimal.value_strip (d : Decimal) (steps : Nat) : (d.strip steps).value = d.value := by
  induction steps generalizing d with
  | zero => rfl
  | succ steps ih =>
    unfold strip
    split
    · next ends =>
      simp only [Bool.and_eq_true, beq_iff_eq] at ends
      have tenfold : d.digits = d.digits / 10 * 10 := by omega
      rw [ih, Decimal.value, Decimal.value, zpow_add_one₀ (by norm_num)]
      conv_rhs => rw [tenfold]
      push_cast
      ring
    · rfl

/-- The shortest decimal of a number is around it. -/
theorem around_shortest {x : Binary64} (some : x.isZero = false) :
    Around x x.shortest.value := by
  obtain ⟨n, holds, value⟩ := Interval.exists_holds_search (holds_value some)
    (digitCount x.interval.value - 1)
  unfold shortest
  rw [if_neg (by simp [some])]
  simp only
  rw [Decimal.value_strip, value]
  exact around_of_holds some holds

theorem value_shortest_pos {x : Binary64} (some : x.isZero = false) : 0 < x.shortest.value := by
  have low := (around_shortest some).low
  have positive : 1 ≤ x.significand := by
    simp only [isZero, beq_eq_false_iff_ne] at some
    omega
  have few := below_le x
  have rational : (2 : ℚ) ≤ 4 * x.significand - x.below := by
    have natural : 2 + x.below ≤ 4 * x.significand := by omega
    have : (2 : ℚ) + x.below ≤ 4 * x.significand := by exact_mod_cast natural
    linarith
  have pos := quarter_pos x
  nlinarith

/-- **The shortest decimal of a number is that of no other**, signs aside. -/
theorem eq_of_value_shortest {x y : Binary64} (hx : Canonical x) (hy : Canonical y)
    (same : x.shortest.value = y.shortest.value) :
    x.significand = y.significand ∧ x.exponent = y.exponent := by
  have bottom {z : Binary64} (hz : Canonical z) (zero : z.isZero = true) :
      z.significand = 0 ∧ z.exponent = minExponent := by
    have none : z.significand = 0 := by simpa [isZero] using zero
    refine ⟨none, hz.normal.resolve_left ?_⟩
    omega
  have nothing {z : Binary64} (zero : z.isZero = true) : z.shortest.value = 0 := by
    rw [shortest, if_pos zero]
    simp [Decimal.value]
  cases hx0 : x.isZero with
  | true =>
    cases hy0 : y.isZero with
    | true =>
      obtain ⟨sx, ex⟩ := bottom hx hx0
      obtain ⟨sy, ey⟩ := bottom hy hy0
      exact ⟨sx.trans sy.symm, ex.trans ey.symm⟩
    | false =>
      have pos := value_shortest_pos hy0
      rw [← same, nothing hx0] at pos
      exact absurd pos (lt_irrefl _)
  | false =>
    cases hy0 : y.isZero with
    | true =>
      have pos := value_shortest_pos hx0
      rw [same, nothing hy0] at pos
      exact absurd pos (lt_irrefl _)
    | false => exact eq_of_around hx hy (around_shortest hx0) (same ▸ around_shortest hy0)

end Bindery.Binary64
