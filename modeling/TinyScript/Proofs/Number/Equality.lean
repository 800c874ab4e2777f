import TinyScript.Proofs.Number.Bits

namespace TinyScript.Exact

open Float.Model UnpackedFloat

/-- A sign as doubles have it. -/
def signOf (negative : Bool) : Sign := if negative then .negative else .positive

/-- An exact value taken apart as doubles are: zeros have no mantissa. -/
def unpacked : Exact → UnpackedFloat
  | nan => .notANumber
  | infinite negative => .infinity (signOf negative)
  | finite negative mantissa exponent =>
    if some : 0 < mantissa then .finite (signOf negative) mantissa exponent some else .zero (signOf negative)

theorem toNat_unpackMantissa (b : Pattern) : (unpackMantissa b).toNat = b.toNat % 2 ^ 52 := by
  simp [unpackMantissa, BitVec.extractLsb, BitVec.extractLsb'_toNat]

theorem ofBitVec_unpackSign (b : Pattern) : Sign.ofBitVec (unpackSign b) = signOf (decide (2 ^ 63 ≤ b.toNat)) := by
  have bound : b.toNat < 2 ^ 64 := b.isLt
  have bit : (unpackSign b).toNat = b.toNat / 2 ^ 63 := by
    simp [unpackSign, BitVec.extractLsb, BitVec.extractLsb'_toNat, Nat.shiftRight_eq_div_pow]
    omega
  by_cases negative : 2 ^ 63 ≤ b.toNat
  · have one : unpackSign b = 1#1 := BitVec.eq_of_toNat_eq (by rw [bit]; show _ = 1; omega)
    rw [one, decide_eq_true negative]
    rfl
  · have zero : unpackSign b = 0#1 := BitVec.eq_of_toNat_eq (by rw [bit]; show _ = 0; omega)
    rw [zero, decide_eq_false negative]
    rfl

/-- A pattern is taken apart into its sign, its exponent and its mantissa. -/
theorem unpack_pattern (b : Pattern) : UnpackedFloat.unpack .binary64 b = unpacked (
    if b.toNat / 2 ^ 52 % 2 ^ 11 = 2047 then
      if b.toNat % 2 ^ 52 = 0 then infinite (decide (2 ^ 63 ≤ b.toNat)) else nan
    else if b.toNat / 2 ^ 52 % 2 ^ 11 = 0 then
      finite (decide (2 ^ 63 ≤ b.toNat)) (b.toNat % 2 ^ 52) leastExponent
    else
      finite (decide (2 ^ 63 ≤ b.toNat)) (2 ^ 52 + b.toNat % 2 ^ 52)
        (leastExponent + (b.toNat / 2 ^ 52 % 2 ^ 11 - 1 : Nat))) := by
  have exponent := toNat_unpackExponent b
  have mantissa := toNat_unpackMantissa b
  have noFraction : unpackMantissa b = 0#52 ↔ b.toNat % 2 ^ 52 = 0 := by
    rw [← mantissa]
    exact ⟨fun zero => by rw [zero]; rfl, fun zero => BitVec.eq_of_toNat_eq zero⟩
  have last : unpackExponent b = -1#11 ↔ b.toNat / 2 ^ 52 % 2 ^ 11 = 2047 := by
    rw [← exponent]
    exact ⟨fun last => by rw [last]; rfl, fun last => BitVec.eq_of_toNat_eq last⟩
  have first : unpackExponent b = 0#11 ↔ b.toNat / 2 ^ 52 % 2 ^ 11 = 0 := by
    rw [← exponent]
    exact ⟨fun first => by rw [first]; rfl, fun first => BitVec.eq_of_toNat_eq first⟩
  have bias : ((Format.binary64.exponentBias : Nat) : Int) = 1023 := rfl
  have width : ((Format.binary64.mantissaBitsWithoutImplicit : Nat) : Int) = 52 := rfl
  rw [UnpackedFloat.unpack]
  dsimp only
  rw [bias, width, ofBitVec_unpackSign b]
  by_cases isLast : b.toNat / 2 ^ 52 % 2 ^ 11 = 2047
  · rw [if_pos (last.2 isLast), if_pos isLast]
    by_cases zero : b.toNat % 2 ^ 52 = 0
    · rw [if_pos (noFraction.2 zero), if_pos zero, unpacked]
    · rw [if_neg (mt noFraction.1 zero), if_neg zero, unpacked]
  · rw [if_neg (mt last.1 isLast), if_neg isLast]
    by_cases isFirst : b.toNat / 2 ^ 52 % 2 ^ 11 = 0
    · have least : ((unpackExponent b).toNat : Int) - (1023 + 52) + 1 = leastExponent := by
        rw [exponent, isFirst]
        rfl
      rw [if_pos (first.2 isFirst), if_pos isFirst, unpacked]
      by_cases zero : b.toNat % 2 ^ 52 = 0
      · rw [dif_pos (noFraction.2 zero), dif_neg (by omega)]
      · rw [dif_neg (mt noFraction.1 zero), dif_pos (by omega)]
        simp only [mantissa, least]
    · have full : (1#1 ++ unpackMantissa b).toNat = 2 ^ 52 + b.toNat % 2 ^ 52 :=
        (toNat_implied _).trans (by rw [mantissa])
      have place : ((unpackExponent b).toNat : Int) - (1023 + 52) =
          leastExponent + (b.toNat / 2 ^ 52 % 2 ^ 11 - 1 : Nat) := by
        rw [exponent]
        unfold leastExponent
        omega
      rw [if_neg (mt first.1 isFirst), if_neg isFirst, unpacked, dif_pos (by omega)]
      simp only [full, place]

/-- A double is taken apart into its exact value. -/
theorem unpack_eq (d : Float) : d.toModel.unpack = (ofFloat d).unpacked := unpack_pattern d.toBits.toBitVec

/-- Both zeros are zero, whatever their sign. -/
def IsZero : Exact → Prop
  | finite _ mantissa _ => mantissa = 0
  | _ => False

theorem beq_finite (p q : Bool) (m n : Nat) (e f : Int) :
    (finite p m e).unpacked.beq (finite q n f).unpacked = true ↔ finite p m e = finite q n f ∨ m = 0 ∧ n = 0 := by
  unfold unpacked UnpackedFloat.beq
  by_cases some : 0 < m <;> by_cases some' : 0 < n <;> cases p <;> cases q <;>
    simp [UnpackedFloat.compare, signOf, some, some', Ordering.then_eq_eq, Ordering.swap_eq_eq] <;> omega

theorem beq_unpacked (x y : Exact) :
    x.unpacked.beq y.unpacked = true ↔ x ≠ nan ∧ (x = y ∨ x.IsZero ∧ y.IsZero) := by
  have apart (p q : Bool) (m : Nat) (e : Int) :
      (infinite p).unpacked.beq (finite q m e).unpacked = false ∧
        (finite q m e).unpacked.beq (infinite p).unpacked = false := by
    unfold unpacked UnpackedFloat.beq
    by_cases some : 0 < m <;> cases p <;> simp [UnpackedFloat.compare, signOf, some]
  cases x with
  | nan => simp [unpacked, UnpackedFloat.beq, UnpackedFloat.compare]
  | infinite p =>
    cases y with
    | nan => simp [unpacked, UnpackedFloat.beq, UnpackedFloat.compare, IsZero]
    | infinite q =>
      have same : compare (signOf p) (signOf q) = .eq ↔ p = q := by cases p <;> cases q <;> decide
      simp [unpacked, UnpackedFloat.beq, UnpackedFloat.compare, IsZero, same]
    | finite q n f => simp [apart, IsZero]
  | finite p m e =>
    cases y with
    | nan =>
      unfold unpacked UnpackedFloat.beq
      by_cases some : 0 < m <;> simp [UnpackedFloat.compare, IsZero, some]
    | infinite q => simp [apart, IsZero]
    | finite q n f => simp [beq_finite, IsZero]

/-- Numbers are equal when they have the same exact value, or when both are zero. -/
theorem beq_iff (d e : Float) :
    (d == e) = true ↔ ofFloat d ≠ nan ∧ (ofFloat d = ofFloat e ∨ (ofFloat d).IsZero ∧ (ofFloat e).IsZero) := by
  rw [← beq_unpacked, ← unpack_eq, ← unpack_eq]
  rfl

theorem isNaN_iff (d : Float) : d.isNaN = true ↔ ofFloat d = nan := by
  have same : d.isNaN = (ofFloat d).unpacked.isNaN := unpack_eq d ▸ rfl
  rw [same]
  cases ofFloat d with
  | nan => simp [unpacked, UnpackedFloat.isNaN]
  | infinite p => simp [unpacked, UnpackedFloat.isNaN]
  | finite p m e =>
    unfold unpacked
    by_cases some : 0 < m <;> simp [UnpackedFloat.isNaN, some]

theorem isFinite_iff (d : Float) : d.isFinite = true ↔ ∃ negative m e, ofFloat d = finite negative m e := by
  have same : d.isFinite = (ofFloat d).unpacked.isFinite := unpack_eq d ▸ rfl
  rw [same]
  cases ofFloat d with
  | nan => simp [unpacked, UnpackedFloat.isFinite]
  | infinite p => simp [unpacked, UnpackedFloat.isFinite]
  | finite p m e =>
    unfold unpacked
    by_cases some : 0 < m <;> simp [UnpackedFloat.isFinite, some]

/-- The exact value of a double determines it. -/
theorem ofFloat_injective : Function.Injective ofFloat := by
  intro d e same
  have unpacked : d.toModel.unpack = e.toModel.unpack := by rw [unpack_eq, unpack_eq, same]
  have packed (d : Float) : Float.ofModel (Float.Model.pack d.toModel.unpack) = d := ofBits_toBits d
  rw [← packed d, ← packed e, unpacked]

theorem ofFloat_zero : ofFloat 0 = finite false 0 leastExponent := by decide +kernel

/-- The exact value with the other sign. -/
def negated : Exact → Exact
  | nan => nan
  | infinite negative => infinite !negative
  | finite negative mantissa exponent => finite (!negative) mantissa exponent

/-- What has the exact value of a double with the other sign is its negative. -/
theorem neg_eq {d e : Float} (other : ofFloat e = (ofFloat d).negated) : -d = e := by
  have unpacked : d.toModel.unpack.neg = e.toModel.unpack := by
    have sign (p : Bool) : -signOf p = signOf !p := by cases p <;> rfl
    rw [unpack_eq, unpack_eq, other]
    cases ofFloat d with
    | nan => rfl
    | infinite p => simp [negated, Exact.unpacked, UnpackedFloat.neg, sign]
    | finite p m e =>
      unfold negated Exact.unpacked
      by_cases some : 0 < m <;> simp [UnpackedFloat.neg, some, sign]
  have packed : Float.ofModel (Float.Model.pack e.toModel.unpack) = e := ofBits_toBits e
  rw [← packed, ← unpacked]
  rfl

end TinyScript.Exact
