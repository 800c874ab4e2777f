import Mathlib
import TinyScript.Number.Exact

namespace TinyScript.Exact

open Float.Model UnpackedFloat

abbrev Pattern := BitVec Format.binary64.numBits

theorem sign_toBitVec_ofBitVec : ∀ sign : BitVec 1, (Sign.ofBitVec sign).toBitVec = sign := by
  decide

/-- A pattern is made of its sign, its exponent and its mantissa. -/
theorem packComponents_unpack (b : Pattern) :
    packComponents .binary64 (Sign.ofBitVec (unpackSign b)) (unpackExponent b) (unpackMantissa b) = b := by
  rw [packComponents, sign_toBitVec_ofBitVec]
  refine BitVec.eq_of_getLsbD_eq fun i below => ?_
  simp only [BitVec.getLsbD_append, unpackSign, unpackExponent, unpackMantissa, BitVec.getLsbD_cast,
    BitVec.getLsbD_extractLsb]
  by_cases mantissa : i < 52
  · simp [mantissa]
  · by_cases exponent : i - 52 < 11
    · have same : 52 + (i - 52) = i := by omega
      simp [mantissa, exponent, same]
    · have same : i = 63 := by
        have below : i < 64 := below
        omega
      subst same
      simp only [mantissa, exponent]
      simp
      exact BitVec.getLsbD_eq_getElem _

/-- The mantissa of a pattern with the bit that is implied. -/
theorem toNat_implied (mantissa : BitVec 52) : (1#1 ++ mantissa).toNat = 2 ^ 52 + mantissa.toNat := by
  have bound := mantissa.isLt
  rw [BitVec.toNat_append, Nat.shiftLeft_eq, Nat.mul_comm, ← Nat.two_pow_add_eq_or_of_lt bound]
  rfl

/-- A mantissa below the implied bit has fewer binary digits than a full one. -/
theorem log2_short {m : Nat} (below : m < 2 ^ 52) : m.log2 + 1 ≠ 53 := by
  by_cases zero : m = 0
  · simp [zero]
  · have short := (Nat.log2_lt zero).2 below
    omega

theorem log2_full {m : Nat} (low : 2 ^ 52 ≤ m) (high : m < 2 ^ 53) : m.log2 + 1 = 53 := by
  have some : m ≠ 0 := by omega
  have least := (Nat.le_log2 some).2 low
  have short := (Nat.log2_lt some).2 high
  omega

/-- How a finite double is packed. -/
theorem pack_finite (sign : Sign) (m : Nat) (e : Int) (some : 0 < m) :
    UnpackedFloat.pack .binary64 (.finite sign m e some) =
      if 2 ^ 11 ≤ (e + 1075).toNat + 1 then packedInfinity .binary64 sign
      else if m.log2 + 1 = 53 then
        packComponents .binary64 sign (BitVec.ofNat 11 (e + 1075).toNat) (BitVec.ofNat 52 m)
      else packComponents .binary64 sign 0#11 (BitVec.ofNat 52 m) := by
  have biased : e + (1023 : Nat) + (52 : Nat) = e + 1075 := by omega
  rw [← biased]
  rfl

/-- Unpacking loses nothing of a valid pattern. -/
theorem pack_unpack {b : Pattern} (valid : Format.binary64.Valid b) :
    UnpackedFloat.pack .binary64 (UnpackedFloat.unpack .binary64 b) = b := by
  have whole := packComponents_unpack b
  have mantissa : (unpackMantissa b).toNat < 2 ^ 52 := (unpackMantissa b).isLt
  have exponent : (unpackExponent b).toNat < 2 ^ 11 := (unpackExponent b).isLt
  have bias : ((Format.binary64.exponentBias : Nat) : Int) = 1023 := rfl
  have width : ((Format.binary64.mantissaBitsWithoutImplicit : Nat) : Int) = 52 := rfl
  rw [UnpackedFloat.unpack]
  dsimp only
  rw [bias, width]
  split
  · next last =>
    split
    · next zero => rwa [last, zero] at whole
    · next some => exact (valid.eq_packedNaN last some).symm
  · next inner =>
    split
    · next first =>
      split
      · next zero => rwa [first, zero] at whole
      · next some =>
        have none : (unpackExponent b).toNat = 0 := by
          rw [first]
          rfl
        rw [pack_finite, if_neg (by omega), if_neg (log2_short mantissa), BitVec.ofNat_toNat, BitVec.setWidth_eq]
        rwa [first] at whole
    · next between =>
      have small : (unpackExponent b).toNat ≠ 2 ^ 11 - 1 := fun same => inner (BitVec.eq_of_toNat_eq same)
      have full : (1#1 ++ unpackMantissa b).toNat = 2 ^ 52 + (unpackMantissa b).toNat := toNat_implied _
      have biased : ((unpackExponent b).toNat - (1023 + 52) + 1075 : Int).toNat =
          (unpackExponent b).toNat := by omega
      have cut : BitVec.ofNat 52 (1#1 ++ unpackMantissa b).toNat = unpackMantissa b := by
        refine BitVec.eq_of_toNat_eq ?_
        rw [BitVec.toNat_ofNat, full]
        omega
      rw [pack_finite, biased, if_neg (by omega), if_pos (log2_full (by omega) (by omega)), cut, BitVec.ofNat_toNat,
        BitVec.setWidth_eq]
      exact whole

/-- A double is made of its bits. -/
theorem ofBits_toBits (d : Float) : Float.ofBits d.toBits = d := by
  obtain ⟨⟨bits, valid⟩⟩ := d
  have same := pack_unpack valid
  simp only [Float.ofBits, Float.toBits, Float.Model.ofBits, Float.Model.pack, same]

theorem toNat_unpackExponent (b : Pattern) : (unpackExponent b).toNat = b.toNat / 2 ^ 52 % 2 ^ 11 := by
  simp [unpackExponent, BitVec.extractLsb, BitVec.extractLsb'_toNat, Nat.shiftRight_eq_div_pow]

/-- The bits of a finite double without a sign stay the same when the double is made of them. -/
theorem toBits_ofBits {bits : Nat} (finite : bits < infiniteBits) :
    (Float.ofBits bits.toUInt64).toBits.toNat = bits := by
  have bound : bits < 2047 * 2 ^ 52 := finite
  have whole : bits.toUInt64.toNat = bits := by
    rw [Nat.toUInt64_eq, UInt64.toNat_ofNat']
    omega
  have valid : Format.binary64.Valid bits.toUInt64.toBitVec := by
    refine ⟨fun last => ?_⟩
    have exponent := toNat_unpackExponent bits.toUInt64.toBitVec
    rw [last, UInt64.toNat_toBitVec, whole] at exponent
    have last : 2047 = bits / 2 ^ 52 % 2 ^ 11 := exponent
    omega
  have same := pack_unpack valid
  simp only [Float.ofBits, Float.toBits, Float.Model.ofBits, Float.Model.pack, same]
  exact whole

end TinyScript.Exact
