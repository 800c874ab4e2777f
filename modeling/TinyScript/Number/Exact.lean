namespace TinyScript

/-- A power of two. -/
def twoTo (n : Nat) : Nat := Nat.pow 2 n

/-- A power of ten. -/
def tenTo (n : Nat) : Nat := Nat.pow 10 n

/-- The exact value of a double. A finite one is `mantissa · 2 ^ exponent` with a sign, so that reading, printing,
remainders and indices can be worked out on natural numbers. -/
inductive Exact where
  | nan
  | infinite (negative : Bool)
  | finite (negative : Bool) (mantissa : Nat) (exponent : Int)
  deriving DecidableEq

namespace Exact

/-- The least exponent: every finite double is a whole multiple of `2 ^ leastExponent`. -/
def leastExponent : Int := -1074

/-- Splits a double into sign, biased exponent and fraction. Below the least normal number the leading bit
is not implied. -/
def ofFloat (d : Float) : Exact :=
  let bits := d.toBits.toNat
  let negative := decide (twoTo 63 ≤ bits)
  let biased := bits / twoTo 52 % twoTo 11
  let fraction := bits % twoTo 52
  if biased = 2047 then
    if fraction = 0 then infinite negative else nan
  else if biased = 0 then
    finite negative fraction leastExponent
  else
    finite negative (twoTo 52 + fraction) (leastExponent + (biased - 1 : Nat))

/-- The bits of `mantissa · 2 ^ exponent` without its sign. The leading bit of a full mantissa carries into
the exponent field, and so does a mantissa of `2 ^ 53` that rounding has produced. -/
def magnitudeBits (mantissa : Nat) (exponent : Int) : Nat :=
  (exponent - leastExponent).toNat * twoTo 52 + mantissa

def infiniteBits : Nat := 2047 * twoTo 52

/-- The double of a sign and a magnitude. What lies above the largest double is infinite. -/
def ofMagnitude (negative : Bool) (bits : Nat) : Float :=
  Float.ofBits ((if negative then twoTo 63 else 0) + min bits infiniteBits).toUInt64

/-- The quotient of two natural numbers, rounded to the nearest whole number and from the middle to the
even one. -/
def roundHalfEven (num den : Nat) : Nat :=
  let whole := num / den
  let twice := 2 * (num % den)
  if twice < den then whole
  else if den < twice then whole + 1
  else whole + whole % 2

/-- Numerator and denominator of `num / den / 2 ^ exponent`. -/
def scaled (num den : Nat) (exponent : Int) : Nat × Nat :=
  (num * twoTo (-exponent).toNat, den * twoTo exponent.toNat)

/-- The exponent for which the quotient has a whole part of 53 binary digits. -/
def fullExponent (num den : Nat) : Int :=
  let guess : Int := (num.log2 : Int) - (den.log2 : Int) - 52
  let (n, d) := scaled num den guess
  if n / d < twoTo 52 then guess - 1 else guess

/-- The mantissa of a quotient at an exponent. -/
def mantissaAt (num den : Nat) (exponent : Int) : Nat :=
  let (n, d) := scaled num den exponent
  roundHalfEven n d

/-- The bits of the double nearest to a positive quotient. -/
def nearestBits (num den : Nat) : Nat :=
  let exponent := max (fullExponent num den) leastExponent
  magnitudeBits (mantissaAt num den exponent) exponent

/-- The double nearest to a quotient, which is zero when the numerator is. -/
def ofQuotient (negative : Bool) (num den : Nat) : Float :=
  ofMagnitude negative (if num = 0 then 0 else nearestBits num den)

/-- The double nearest to a natural number, which is that number below `2 ^ 53`. -/
def ofNat (n : Nat) : Float := ofQuotient false n 1

/-- The natural number that a double is equal to. Both zeros are equal to zero. -/
def toNat? (d : Float) : Option Nat :=
  match ofFloat d with
  | finite negative mantissa exponent =>
    let scale := twoTo (-exponent).toNat
    if mantissa % scale ≠ 0 ∨ negative ∧ mantissa ≠ 0 then none
    else some (mantissa * twoTo exponent.toNat / scale)
  | _ => none

/-- The remainder of a division with a quotient rounded toward zero. It is exact and has the sign of the
dividend. -/
def remainder (x y : Float) : Float :=
  match ofFloat x, ofFloat y with
  | finite negative m p, finite _ n q =>
    let least := min p q
    let num := m * twoTo (p - least).toNat
    let den := n * twoTo (q - least).toNat
    if den = 0 then 0 / 0
    else
      let rest := num % den
      ofQuotient negative (rest * twoTo least.toNat) (twoTo (-least).toNat)
  | finite .., infinite _ => x
  | _, _ => 0 / 0

end Exact

end TinyScript
