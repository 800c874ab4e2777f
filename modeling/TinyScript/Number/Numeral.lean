import TinyScript.Text
import TinyScript.Number.Exact

namespace TinyScript

/-- The written form of a number: digits, perhaps a fraction and an exponent. -/
structure Numeral where
  whole : Text
  fraction : Text
  exponent : Int
  deriving DecidableEq

namespace Numeral

/-- The numeral is `digits · 10 ^ scale`. -/
def digits (n : Numeral) : Nat := (n.whole ++ n.fraction).digitsValue

def scale (n : Numeral) : Int := n.exponent - n.fraction.length

/-- How many digits stand before the decimal point when the first of them is not zero. -/
def magnitude (n : Numeral) : Int :=
  ((n.whole ++ n.fraction).dropWhile (· = ascii '0')).length + n.scale

/-- A quotient that is below the least normal number after rounding has lost digits when it has binary digits
behind the last place of a double. A digit behind the 53 of a full mantissa does not count when it is the
last one. -/
def underflows (num den : Nat) : Bool :=
  let exponent := Exact.fullExponent num den
  let (n, d) := Exact.scaled num den (exponent - 1)
  let mantissa := n / d / 2
  let shift := (Exact.leastExponent - exponent).toNat
  exponent < Exact.leastExponent && (n % d ≠ 0 || mantissa % twoTo shift ≠ 0) &&
    !(shift = 1 && Exact.mantissaAt num den exponent = twoTo 53)

/-- Reads a positive quotient. -/
def ofQuotient? (num den : Nat) : Option Float :=
  let bits := Exact.nearestBits num den
  if underflows num den || Exact.infiniteBits ≤ bits then none else some (Exact.ofMagnitude false bits)

/-- The value of a numeral is the double nearest to it, unless that is infinite or has lost digits to underflow.
Magnitudes that are out of range by far are settled before any power of ten is computed. -/
def value? (n : Numeral) : Option Float :=
  if n.digits = 0 then some (Exact.ofMagnitude false 0)
  else if n.magnitude < -400 ∨ 400 < n.magnitude then none
  else ofQuotient? (n.digits * tenTo n.scale.toNat) (tenTo (-n.scale).toNat)

end Numeral

end TinyScript
