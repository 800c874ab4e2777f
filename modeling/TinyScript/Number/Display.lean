import TinyScript.Text
import TinyScript.Number.Shortest

namespace TinyScript

/-- Where the layout of decimals changes. -/
structure Decimal.Layout where
  /-- Whole numbers below this bound are written in full. -/
  wholeBelow : Nat
  /-- The place values of the first digit that are written without an exponent: from `plainFrom` on, -/
  plainFrom : Int
  /-- and before `plainBelow`. -/
  plainBelow : Int
  /-- The least number of digits of an exponent. -/
  exponentDigits : Nat

/-- Numbers of the language show up to sixteen digits before an exponent is needed. -/
def numberLayout : Decimal.Layout := ⟨tenTo 15, -4, 16, 2⟩

namespace Decimal

def zeros (count : Nat) : Text := List.replicate count (ascii '0')

/-- Digits around a decimal point that stands behind `point` of them. -/
def plain (digits : Text) (point : Int) : Text :=
  if point ≤ 0 then "0." ++ zeros (-point).toNat ++ digits
  else if digits.length ≤ point.toNat then digits ++ zeros (point.toNat - digits.length)
  else digits.take point.toNat ++ "." ++ digits.drop point.toNat

/-- One digit, the others behind a point, and the power of ten of the first. -/
def scientific (layout : Layout) (digits : Text) (place : Int) : Text :=
  let power := Text.ofNat place.natAbs
  digits.take 1 ++ (if digits.length ≤ 1 then [] else ascii '.' :: digits.drop 1) ++
    (if place < 0 then "e-" else "e+") ++ zeros (layout.exponentDigits - power.length) ++ power

def text (layout : Layout) (d : Decimal) : Text :=
  let digits := Text.ofNat d.digits
  let point : Int := digits.length + d.exponent
  if layout.plainFrom < point ∧ point ≤ layout.plainBelow then plain digits point
  else scientific layout digits (point - 1)

end Decimal

/-- The text of `mantissa · 2 ^ exponent`. -/
def magnitudeText (mantissa : Nat) (exponent : Int) : Text :=
  let scale := twoTo (-exponent).toNat
  let whole := mantissa * twoTo exponent.toNat / scale
  if mantissa % scale = 0 ∧ whole < numberLayout.wholeBelow then Text.ofNat whole
  else (Decimal.shortest mantissa exponent).text numberLayout

/-- The text of a number. Whole numbers of moderate size are written in full, all others as the shortest decimal that
stands for them. The sign of zero is not shown. -/
def numberText (d : Float) : Text :=
  match Exact.ofFloat d with
  | .nan => "NaN"
  | .infinite negative => if negative then "-Infinity" else "Infinity"
  | .finite negative mantissa exponent =>
    (if negative ∧ mantissa ≠ 0 then "-" else "") ++ magnitudeText mantissa exponent

end TinyScript
