namespace LayeredDiagram.Number

-- A positive decimal: the digits after a point, moved `point` places to the right.
structure Decimal where
  digits : List Char
  point : Int
deriving DecidableEq, Repr

namespace Decimal

def ofGrid (d : Nat) (grid : Int) : Decimal :=
  let digits := Nat.toDigits 10 d
  { digits := (digits.reverse.dropWhile (· == '0')).reverse
    point := grid + digits.length }

end Decimal

-- A positive number and the interval around it, all counted in units of `unitNum / unitDen`.
structure Neighbourhood where
  low : Nat
  value : Nat
  high : Nat
  closed : Bool
  unitNum : Nat
  unitDen : Nat

namespace Neighbourhood

-- Quarter steps are fine enough for both ends: below a power of two the gap is half as wide.
def ofParts (m : Nat) (e : Int) : Neighbourhood :=
  { low := if m = 1 <<< 52 ∧ -1074 < e then 4 * m - 1 else 4 * m - 2
    value := 4 * m
    high := 4 * m + 2
    closed := m % 2 == 0
    unitNum := 1 <<< (e - 2).toNat
    unitDen := 1 <<< (2 - e).toNat }

-- The factors that bring units and points of the grid `10 ^ grid` to a common measure.
def unitFactor (v : Neighbourhood) (grid : Int) : Nat :=
  v.unitNum * Nat.pow 10 (-grid).toNat

def gridFactor (v : Neighbourhood) (grid : Int) : Nat :=
  v.unitDen * Nat.pow 10 grid.toNat

def isBelowPowerOfTen (v : Neighbourhood) (k : Int) : Bool :=
  v.value * v.unitFactor k < v.gridFactor k

-- The `k` with `10 ^ (k - 1) ≤ value < 10 ^ k`, searched upward from an estimate by bits.
def point (v : Neighbourhood) : Int :=
  let bits : Int := (Nat.log2 (v.value * v.unitNum) : Int) - Nat.log2 v.unitDen
  let start := (bits - 1) * 30103 / 100000
  ([start, start + 1, start + 2].find? v.isBelowPowerOfTen).getD (start + 3)

def holds (v : Neighbourhood) (grid : Int) (d : Nat) : Bool :=
  let low := v.low * v.unitFactor grid
  let high := v.high * v.unitFactor grid
  let place := d * v.gridFactor grid
  if v.closed then low ≤ place && place ≤ high else low < place && place < high

-- The nearest decimal on the grid among the two neighbours that the interval holds.
def onGrid (v : Neighbourhood) (grid : Int) : Option Nat :=
  let value := v.value * v.unitFactor grid
  let step := v.gridFactor grid
  let below := value / step
  let toBelow := value - below * step
  let toAbove := (below + 1) * step - value
  match v.holds grid below, v.holds grid (below + 1) with
  | true, true =>
    if toBelow < toAbove then some below
    else if toAbove < toBelow then some (below + 1)
    else some (if below % 2 == 0 then below else below + 1)
  | true, false => some below
  | false, true => some (below + 1)
  | false, false => none

-- The shortest decimal that reads back as the number. Of all decimals in its interval, ends
-- included when its mantissa is even, those with the fewest digits are wanted, of these the
-- nearest, and of two equally near ones the even one. On the grid of `n` digits only the two
-- neighbours of the number itself can qualify, so the first grid with a neighbour inside gives the
-- answer. Seventeen digits always suffice.
def shortest (v : Neighbourhood) : Decimal :=
  let point := v.point
  let found := (List.range' 1 17).findSome? fun (n : Nat) =>
    (v.onGrid (point - n)).map (Decimal.ofGrid · (point - n))
  found.getD (Decimal.ofGrid (v.value * v.unitNum / v.unitDen) 0)

end Neighbourhood

end LayeredDiagram.Number
