import GraphExport.Decimal.Shortest

/-!
# GraphExport.Decimal.Layout

The text of a binary64 number: its shortest digits, set positionally or with an exponent.
-/

namespace GraphExport.Binary64

/-- How digits are set out as text. -/
structure Layout where
  /-- Up to this place the point is written out to the right of the leading digit. -/
  maxPoint : Int
  /-- Down to this place (exclusive) zeros are written between the point and the first digit. -/
  minPoint : Int
  deriving DecidableEq

/-- Numbers below `10 ^ 16` and from `10 ^ -5` on are written positionally. -/
def Layout.standard : Layout := ⟨16, -5⟩

def digitChar (d : Nat) : Char := Char.ofNat ('0'.toNat + d)

def zeros (n : Nat) : List Char := List.replicate n '0'

/-- The digits with a point, or with an exponent whose sign is always written. -/
def Layout.place (l : Layout) (d : Digits) : List Char :=
  let cs := d.digits.map digitChar
  let n : Int := cs.length
  if 0 < d.point && d.point ≤ l.maxPoint then
    if n ≤ d.point then cs ++ zeros (d.point - n).toNat ++ ['.', '0']
    else cs.take d.point.toNat ++ '.' :: cs.drop d.point.toNat
  else if l.minPoint < d.point && d.point ≤ 0 then
    '0' :: '.' :: (zeros (-d.point).toNat ++ cs)
  else
    let e := d.point - 1
    let mark := if e < 0 then '-' else '+'
    let tail := if cs.length ≤ 1 then [] else '.' :: cs.drop 1
    cs.take 1 ++ tail ++ 'e' :: mark :: Nat.toDigits 10 e.natAbs

/-- The shortest text that reads back as the number. Zero has a sign too. -/
def text (x : Binary64) : List Char :=
  let body := if x.significand = 0 then ['0', '.', '0'] else Layout.standard.place (shortest x)
  if x.negative then '-' :: body else body

end GraphExport.Binary64
