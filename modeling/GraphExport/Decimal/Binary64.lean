/-!
# GraphExport.Decimal.Binary64

Finite binary64 numbers as sign, significand and exponent, and a number of that kind for a decimal.
All of it is exact arithmetic on natural numbers, with rounding where the program rounds.
-/

namespace GraphExport

/-- The number `± significand * 2 ^ exponent`. A number has one form: the significand is below
`2 ^ 53`, and at least `2 ^ 52` unless the exponent is the least one. -/
structure Binary64 where
  negative : Bool
  significand : Nat
  exponent : Int
  deriving DecidableEq, Repr

namespace Binary64

def minExponent : Int := -1074

def maxExponent : Int := 971

/-- The quotient rounded to the nearest natural number, a half to the even neighbour. -/
def roundDiv (num den : Nat) : Nat :=
  let q := num / den
  let r := num % den
  if 2 * r < den then q
  else if 2 * r > den then q + 1
  else q + q % 2

/-- `num / (den * 2 ^ e)` as a pair of numerator and denominator. -/
def scaled (num den : Nat) (e : Int) : Nat × Nat :=
  if 0 ≤ e then (num, den * Nat.pow 2 e.toNat) else (num * Nat.pow 2 (-e).toNat, den)

/-- The nearest number of the positive quotient `num / den`; `none` is an overflow. -/
def ofQuotient (negative : Bool) (num den : Nat) : Option Binary64 :=
  let guess : Int := (Nat.log2 num : Int) - (Nat.log2 den : Int) - 53
  let low := max guess minExponent
  let (n, d) := scaled num den low
  let e := if n / d < Nat.pow 2 53 then low else low + 1
  let (n, d) := scaled num den e
  let m := roundDiv n d
  let (m, e) := if m = Nat.pow 2 53 then (Nat.pow 2 52, e + 1) else (m, e)
  if maxExponent < e then none else some ⟨negative, m, e⟩

/-- The nearest number of a quotient. -/
def ofFraction (negative : Bool) (num den : Nat) : Option Binary64 :=
  if num = 0 then some ⟨negative, 0, minExponent⟩ else ofQuotient negative num den

/-! ## Rounded arithmetic -/

/-- The size of a number as a pair of numerator and denominator. -/
def fraction (x : Binary64) : Nat × Nat :=
  if 0 ≤ x.exponent then (x.significand * Nat.pow 2 x.exponent.toNat, 1)
  else (x.significand, Nat.pow 2 (-x.exponent).toNat)

/-- The product, rounded; `none` is an overflow. -/
def mul (x y : Binary64) : Option Binary64 :=
  ofFraction (x.negative != y.negative) (x.fraction.1 * y.fraction.1) (x.fraction.2 * y.fraction.2)

/-- The quotient by a number that is not zero, rounded; `none` is an overflow. -/
def div (x y : Binary64) : Option Binary64 :=
  ofFraction (x.negative != y.negative) (x.fraction.1 * y.fraction.2) (x.fraction.2 * y.fraction.1)

/-! ## Decimals -/

/-- The greatest power of ten that is in range. -/
def maxPower : Nat := 308

/-- A power of ten, rounded. -/
def tenPower (n : Nat) : Option Binary64 := ofFraction false (Nat.pow 10 n) 1

/-- The number times `10 ^ n`. A power beyond the greatest one leaves only zero in range. -/
def scaleUp (x : Binary64) (n : Nat) : Option Binary64 :=
  if n ≤ maxPower then (tenPower n).bind x.mul
  else if x.significand = 0 then some x
  else none

/-- The number over the greatest power, so many times or until it is zero. -/
def stepsDown : Nat → Binary64 → Option Binary64
  | 0, x => some x
  | k + 1, x =>
    if x.significand = 0 then some x
    else ((tenPower maxPower).bind x.div).bind (stepsDown k)

/-- The number over `10 ^ n`, by way of the greatest power where `n` is beyond it. -/
def scaleDown (x : Binary64) (n : Nat) : Option Binary64 :=
  let steps := (n - 1) / maxPower
  (stepsDown steps x).bind fun y => (tenPower (n - steps * maxPower)).bind y.div

/-- A number close to `± digits * 10 ^ exponent`; `none` is an overflow. The digits, the power of
ten and what comes of both are each rounded, so that the nearest number may be missed, and a decimal
at the end of the range may be an overflow. -/
def ofDecimal (negative : Bool) (digits : Nat) (exponent : Int) : Option Binary64 := do
  let x ← ofFraction negative digits 1
  if 0 ≤ exponent then x.scaleUp exponent.toNat else x.scaleDown (-exponent).toNat

end Binary64

end GraphExport
