/-!
# Finite 64-bit floating point numbers

A `Binary64` is a sign, a significand below `2 ^ 53` and an exponent of two. Rounding is exact
arithmetic on naturals: a quotient goes to the nearest such number, and halfway to the one whose
significand is even. Products and quotients are the rounded exact ones.
-/

namespace Bindery
set_option autoImplicit false

/-- The number `significand * 2 ^ exponent`, negated if `negative`. The significand is at least
`2 ^ 52` unless the exponent is the least one. -/
structure Binary64 where
  negative : Bool
  significand : Nat
  exponent : Int
deriving Repr, DecidableEq, Inhabited

namespace Binary64

/-- The least exponent of two. -/
def minExponent : Int := -1074

/-- The greatest exponent of two. -/
def maxExponent : Int := 971

/-- Zero, with a sign. -/
def zero (negative : Bool) : Binary64 :=
  ⟨negative, 0, minExponent⟩

/-- Whether a number is zero, of either sign. -/
def isZero (x : Binary64) : Bool :=
  x.significand == 0

/-- Whether two numbers are equal in value: the two zeros are. -/
def same (x y : Binary64) : Bool :=
  x == y || (x.isZero && y.isZero)

/-- The positive quotient `num / den` over `2 ^ e`, as a numerator and a denominator. -/
def scaled (num den : Nat) (e : Int) : Nat × Nat :=
  (num * Nat.pow 2 (-e).toNat, den * Nat.pow 2 e.toNat)

/-- The exponent at which `num / den` has a whole part of 53 binary digits, or the least one. -/
def exponentOf (num den : Nat) : Int :=
  let e := (num.log2 : Int) - den.log2 - 53
  let q := scaled num den e
  max minExponent (if Nat.pow 2 53 ≤ q.1 / q.2 then e + 1 else e)

/-- The nearest natural to `num / den`; halfway, the even one. -/
def roundQuotient (num den : Nat) : Nat :=
  let q := num / den
  let r := num % den
  if den < 2 * r || (2 * r == den && q % 2 == 1) then q + 1 else q

/-- The nearest number to `num / den`, none if that is beyond the greatest one. -/
def ofQuotient? (negative : Bool) (num den : Nat) : Option Binary64 :=
  if num = 0 then some (zero negative)
  else
    let e := exponentOf num den
    let q := scaled num den e
    let n := roundQuotient q.1 q.2
    let x : Binary64 :=
      if n = Nat.pow 2 53 then ⟨negative, Nat.pow 2 52, e + 1⟩ else ⟨negative, n, e⟩
    if maxExponent < x.exponent then none else some x

/-- The absolute value as a quotient of naturals. -/
def quotient (x : Binary64) : Nat × Nat :=
  (x.significand * Nat.pow 2 x.exponent.toNat, Nat.pow 2 (-x.exponent).toNat)

/-- The rounded product, none if it is too large. -/
def mul? (x y : Binary64) : Option Binary64 :=
  ofQuotient? (x.negative != y.negative) (x.quotient.1 * y.quotient.1)
    (x.quotient.2 * y.quotient.2)

/-- The rounded quotient by a number other than zero, none if it is too large. -/
def div? (x y : Binary64) : Option Binary64 :=
  ofQuotient? (x.negative != y.negative) (x.quotient.1 * y.quotient.2)
    (x.quotient.2 * y.quotient.1)

end Binary64

end Bindery
