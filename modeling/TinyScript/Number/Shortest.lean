import TinyScript.Number.Exact

namespace TinyScript

/-- The decimal `digits · 10 ^ exponent`. -/
structure Decimal where
  digits : Nat
  exponent : Int
  deriving DecidableEq

namespace Shortest

/-- The decimals that round to a positive double, in units of `2 ^ exponent`: those between `low` and `high`
around `value`, the ends included when `closed` says so. -/
structure Interval where
  low : Nat
  value : Nat
  high : Nat
  closed : Bool
  exponent : Int

/-- The interval of `mantissa · 2 ^ exponent`, in quarters of its unit. The gap below a power of two is half
the gap above it, and the ends round to an even mantissa. -/
def interval (mantissa : Nat) (exponent : Int) : Interval where
  low := 4 * mantissa - if mantissa = twoTo 52 ∧ Exact.leastExponent < exponent then 1 else 2
  value := 4 * mantissa
  high := 4 * mantissa + 2
  closed := mantissa % 2 = 0
  exponent := exponent - 2

namespace Interval

/-- What a point of the grid of `10 ^ grid` and a multiple of the interval's unit are multiplied by to become
comparable. -/
def weights (i : Interval) (grid : Int) : Nat × Nat :=
  (tenTo grid.toNat * twoTo (-i.exponent).toNat, twoTo i.exponent.toNat * tenTo (-grid).toNat)

/-- The interval holds `point · 10 ^ grid`. -/
def holds (i : Interval) (grid : Int) (point : Nat) : Bool :=
  let (ours, theirs) := i.weights grid
  if i.closed then i.low * theirs ≤ point * ours && point * ours ≤ i.high * theirs
  else i.low * theirs < point * ours && point * ours < i.high * theirs

/-- The point of a grid that is nearest to the value among those in the interval, from the middle the even
one. Only the two neighbours of the value have to be looked at. -/
def nearest? (i : Interval) (grid : Int) : Option Nat :=
  let (ours, theirs) := i.weights grid
  let below := i.value * theirs / ours
  let twice := 2 * (i.value * theirs % ours)
  match i.holds grid below, i.holds grid (below + 1) with
  | true, true =>
    if twice < ours then some below
    else if ours < twice then some (below + 1)
    else some (below + below % 2)
  | true, false => some below
  | false, true => some (below + 1)
  | false, false => none

/-- Goes down from a grid until one has a point in the interval. -/
def search (i : Interval) : Nat → Int → Decimal
  | 0, grid =>
    let (ours, theirs) := i.weights grid
    ⟨i.value * theirs / ours, grid⟩
  | steps + 1, grid =>
    match i.nearest? grid with
    | some point => ⟨point, grid⟩
    | none => search i steps (grid - 1)

/-- A grid whose unit is above the interval, because `2 ^ 3 ≤ 10` and `10 ^ 3 ≤ 2 ^ 10`. -/
def topGrid (i : Interval) : Int :=
  let bound : Int := i.high.log2 + 1 + i.exponent
  if 0 ≤ bound then bound / 3 + 1 else -(3 * (-bound / 10)) + 1

/-- The value itself is a point of this grid. -/
def lastGrid (i : Interval) : Int := min i.exponent 0

end Interval

end Shortest

/-- The shortest decimal that stands for `mantissa · 2 ^ exponent`. Grids of ever finer powers of ten are tried in turn,
and the first one with a point in the interval gives the fewest digits. -/
def Decimal.shortest (mantissa : Nat) (exponent : Int) : Decimal :=
  let i := Shortest.interval mantissa exponent
  i.search (i.topGrid - i.lastGrid).toNat i.topGrid

end TinyScript
