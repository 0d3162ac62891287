import Bindery.Binary64.Basic

/-!
# The fewest digits that identify a number

The reals that round to a number form an interval around it, closed if the significand is even.
Written out in full, the number and the two ends of its interval are naturals over one power of
ten. The number is cut after its first, second, ... digit until the cut, or the next decimal of that
length above it, lies in the interval; of the two the nearer is taken, and of two equally near the
one with an even last digit.
-/

namespace Bindery.Binary64
set_option autoImplicit false

/-- `digits * 10 ^ exponent`. -/
structure Decimal where
  digits : Nat
  exponent : Int
deriving Repr, DecidableEq, Inhabited

/-- A number and the ends of its interval as naturals over one power of ten. -/
structure Interval where
  low : Nat
  value : Nat
  high : Nat
  /-- Whether the ends belong to the interval. -/
  closed : Bool
  /-- The power of ten. -/
  exponent : Int
deriving Repr, DecidableEq

/-- The interval of a number other than zero. The gap below a power of two is half as wide. -/
def interval (x : Binary64) : Interval :=
  let below := if x.significand == Nat.pow 2 52 && minExponent < x.exponent then 1 else 2
  let e := x.exponent - 2
  let factor := Nat.pow 2 e.toNat * Nat.pow 5 (-e).toNat
  { low := (4 * x.significand - below) * factor
    value := 4 * x.significand * factor
    high := (4 * x.significand + 2) * factor
    closed := x.significand % 2 == 0
    exponent := min e 0 }

/-- Whether a natural over the interval's power of ten lies in the interval. -/
def Interval.holds (i : Interval) (n : Nat) : Bool :=
  if i.closed then i.low ≤ n && n ≤ i.high else i.low < n && n < i.high

/-- The decimal with `cut` digits fewer than the value that lies in the interval and is nearest to
the value, if there is one. -/
def Interval.cutAt (i : Interval) (cut : Nat) : Option Nat :=
  let unit := Nat.pow 10 cut
  let q := i.value / unit
  let down := i.holds (q * unit)
  let up := i.holds ((q + 1) * unit)
  let r := 2 * (i.value % unit)
  if down && up then some (if r < unit || (r == unit && q % 2 == 0) then q else q + 1)
  else if down then some q
  else if up then some (q + 1)
  else none

/-- The first decimal found when cutting fewer and fewer digits, at most `cut` of them. -/
def Interval.search (i : Interval) : Nat → Decimal
  | 0 => ⟨i.value, i.exponent⟩
  | cut + 1 =>
    match i.cutAt (cut + 1) with
    | some q => ⟨q, i.exponent + (cut + 1 : Nat)⟩
    | none => i.search cut

/-- A decimal without trailing zeros among at most `steps` of its digits. -/
def Decimal.strip (d : Decimal) : Nat → Decimal
  | 0 => d
  | steps + 1 =>
    if d.digits != 0 && d.digits % 10 == 0 then
      Decimal.strip ⟨d.digits / 10, d.exponent + 1⟩ steps
    else d

/-- The number of decimal digits of a natural. -/
def digitCount (n : Nat) : Nat :=
  (Nat.toDigits 10 n).length

/-- The shortest decimal that reads back as the absolute value of a number. -/
def shortest (x : Binary64) : Decimal :=
  if x.isZero then ⟨0, 0⟩
  else
    let i := x.interval
    let d := i.search (digitCount i.value - 1)
    d.strip (digitCount d.digits)

/-- `n` zeros. -/
def zeros (n : Nat) : List Char :=
  List.replicate n '0'

/-- An exponent of ten as text, always with its sign. -/
def exponentText (e : Int) : List Char :=
  (if e < 0 then '-' else '+') :: Nat.toDigits 10 e.natAbs

/-- A decimal as text. The point is written where it falls if the first digit stands at most sixteen
places before it or five behind it; else the first digit is followed by the point and the text ends
in an exponent. There is always a point or an exponent. -/
def Decimal.text (d : Decimal) : List Char :=
  let ds := Nat.toDigits 10 d.digits
  let point := d.exponent + ds.length
  if 0 ≤ d.exponent && point ≤ 16 then ds ++ zeros d.exponent.toNat ++ ['.', '0']
  else if 0 < point && point ≤ 16 then ds.take point.toNat ++ ['.'] ++ ds.drop point.toNat
  else if -5 < point && point ≤ 0 then ['0', '.'] ++ zeros (-point).toNat ++ ds
  else
    let fraction := if ds.length == 1 then [] else ['.'] ++ ds.drop 1
    ds.take 1 ++ fraction ++ ['e'] ++ exponentText (point - 1)

/-- A number as text, in the fewest digits that read back as it. -/
def text (x : Binary64) : List Char :=
  (if x.negative then ['-'] else []) ++ x.shortest.text

end Bindery.Binary64
