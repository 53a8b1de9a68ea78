import GraphExport.Decimal.Binary64

/-!
# GraphExport.Decimal.Shortest

The shortest decimal that reads back as a given binary64 number: the fewest digits that lie in the
interval of reals rounding to it, and of two such decimals the nearer one.
-/

namespace GraphExport.Binary64

/-- A positive decimal `0.d₁d₂…dₙ * 10 ^ point`, digits from the left. -/
structure Digits where
  digits : List Nat
  point : Int
  deriving DecidableEq, Repr

structure Target where
  low : Nat
  value : Nat
  high : Nat
  den : Nat
  closed : Bool

/-- The reals that round to a number: half-way to its neighbours, of which the lower one is closer
at a power of two. -/
def target (x : Binary64) : Target :=
  let m := 4 * x.significand
  let below := if x.significand = Nat.pow 2 52 ∧ minExponent < x.exponent then 1 else 2
  let e := x.exponent - 2
  let (unit, den) := if 0 ≤ e then (Nat.pow 2 e.toNat, 1) else (1, Nat.pow 2 (-e).toNat)
  { low := (m - below) * unit, value := m * unit, high := (m + 2) * unit, den,
    closed := x.significand % 2 = 0 }

/-- The target with `10 ^ e` as its unit. -/
def Target.over (t : Target) (e : Int) : Target :=
  if 0 ≤ e then { t with den := t.den * Nat.pow 10 e.toNat }
  else
    let k := Nat.pow 10 (-e).toNat
    { t with low := t.low * k, value := t.value * k, high := t.high * k }

def Target.holds (t : Target) (a : Nat) : Bool :=
  if t.closed then t.low ≤ a * t.den && a * t.den ≤ t.high
  else t.low < a * t.den && a * t.den < t.high

/-- The natural number in the interval that is nearest to the value, if there is one; of two
equally near ones the even one. -/
def Target.nearest? (t : Target) : Option Nat :=
  let a := t.value / t.den
  let r := t.value % t.den
  match t.holds a, t.holds (a + 1) with
  | false, false => none
  | true, false => some a
  | false, true => some (a + 1)
  | true, true =>
    if 2 * r < t.den then some a
    else if t.den < 2 * r then some (a + 1)
    else some (a + a % 2)

/-- The least `k` with `value < 10 ^ k`, looked for upwards from `k`. -/
def pointFrom (t : Target) : Nat → Int → Int
  | 0, k => k
  | fuel + 1, k =>
    let u := t.over k
    if u.value < u.den then k else pointFrom t fuel (k + 1)

def searchDigits (t : Target) (point : Int) : List Nat → Nat × Int
  | [] => (0, point)
  | n :: counts =>
    match (t.over (point - n)).nearest? with
    | some a => (a, point - n)
    | none => searchDigits t point counts

def digitsOf (n : Nat) : List Nat := (Nat.toDigits 10 n).map fun c => c.toNat - '0'.toNat

/-- Seventeen digits always suffice, so the search runs up to that count. -/
def digitCounts : List Nat := (List.range 17).map (· + 1)

def shortest (x : Binary64) : Digits :=
  let t := target x
  let bits : Int := (Nat.log2 x.significand : Int) + x.exponent
  let point := pointFrom t 4 (bits * 30103 / 100000 - 1)
  let (a, e) := searchDigits t point digitCounts
  let ds := digitsOf a
  { digits := (ds.reverse.dropWhile (· = 0)).reverse, point := e + ds.length }

end GraphExport.Binary64
