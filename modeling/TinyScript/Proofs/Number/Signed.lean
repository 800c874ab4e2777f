import TinyScript.Proofs.Number.Equality
import TinyScript.Proofs.Number.Text

namespace TinyScript

open Exact

variable {x y : Float} {negative : Bool} {m : Nat} {e : Int}

/-- A finite number has the same mantissa and exponent as some number without a sign. -/
theorem exists_magnitude (exact : ofFloat x = .finite negative m e) :
    ∃ y, Magnitude y ∧ ofFloat y = .finite false m e := by
  let bits := x.toBits.toNat % 2 ^ 63
  have split : bits / 2 ^ 52 % 2 ^ 11 = x.toBits.toNat / 2 ^ 52 % 2 ^ 11 ∧
      bits % 2 ^ 52 = x.toBits.toNat % 2 ^ 52 ∧ bits < 2 ^ 63 := by omega
  obtain ⟨biased, fraction, below⟩ := split
  unfold ofFloat at exact
  dsimp only at exact
  split at exact
  · split at exact <;> cases exact
  · next notLast =>
    have finite : bits < infiniteBits := by
      have notLast : ¬ x.toBits.toNat / 2 ^ 52 % 2 ^ 11 = 2047 := notLast
      show bits < 2047 * 2 ^ 52
      omega
    have same : (Float.ofBits bits.toUInt64).toBits.toNat = bits := toBits_ofBits finite
    refine ⟨Float.ofBits bits.toUInt64, (congrArg (· < infiniteBits) same).mpr finite, ?_⟩
    have biased : bits / twoTo 52 % twoTo 11 = x.toBits.toNat / twoTo 52 % twoTo 11 := biased
    have fraction : bits % twoTo 52 = x.toBits.toNat % twoTo 52 := fraction
    have positive : ¬ twoTo 63 ≤ bits := Nat.not_le.2 below
    unfold ofFloat
    dsimp only
    rw [same, biased, fraction, if_neg notLast, decide_eq_false positive]
    split at exact <;> cases exact
    · next first => rw [if_pos first]
    · next first => rw [if_neg first]

/-- There is one zero without a sign. -/
theorem Magnitude.eq_zero (magnitude : Magnitude y) (exact : ofFloat y = .finite false 0 e) : y = 0 := by
  refine ofFloat_injective ?_
  rcases ofFloat_cases magnitude with ⟨same, _⟩ | ⟨m, _, same, full, _⟩
  · obtain ⟨-, -, rfl⟩ := Exact.finite.inj (exact.symm.trans same)
    rw [exact, ofFloat_zero]
  · obtain ⟨-, rfl, -⟩ := Exact.finite.inj (exact.symm.trans same)
    exact absurd full.pos (Nat.lt_irrefl 0)

/-- The same number. Both zeros become the one without a sign. -/
def unsignedZero (x : Float) : Float := if x == 0 then 0 else x

theorem unsignedZero_of_zero (exact : ofFloat x = .finite negative 0 e) : unsignedZero x = 0 := by
  refine if_pos ((beq_iff x 0).2 ⟨?_, .inr ⟨?_, ?_⟩⟩)
  · rw [exact]
    nofun
  · rw [exact]
    rfl
  · rw [ofFloat_zero]
    rfl

theorem unsignedZero_of_pos (exact : ofFloat x = .finite negative m e) (some : m ≠ 0) : unsignedZero x = x := by
  refine if_neg fun equal => ?_
  obtain ⟨-, same | ⟨none, -⟩⟩ := (beq_iff x 0).1 equal
  · rw [exact, ofFloat_zero] at same
    cases same
    exact some rfl
  · rw [exact] at none
    exact some none

/-- A finite number is printed as a number without a sign, or behind a sign when it is below zero. -/
theorem numberText_signed (finite : x.isFinite) (normal : ZeroOrNormal x) :
    ∃ y, Magnitude y ∧ ZeroOrNormal y ∧ (numberText x = numberText y ∧ unsignedZero x = y ∨
      numberText x = "-" ++ numberText y ∧ unsignedZero x = -y) := by
  obtain ⟨negative, m, e, exact⟩ := (isFinite_iff x).1 finite
  obtain ⟨y, magnitude, other⟩ := exists_magnitude exact
  have normal : ZeroOrNormal y := by
    unfold ZeroOrNormal at normal ⊢
    rw [exact] at normal
    rwa [other]
  refine ⟨y, magnitude, normal, ?_⟩
  have text : numberText y = magnitudeText m e := by
    unfold numberText
    rw [other]
    rfl
  by_cases zero : m = 0
  · subst zero
    refine .inl ⟨?_, (unsignedZero_of_zero exact).trans (magnitude.eq_zero other).symm⟩
    rw [text]
    unfold numberText
    rw [exact]
    dsimp only
    rw [if_neg fun both => both.2 rfl]
    rfl
  · rw [unsignedZero_of_pos exact zero]
    cases negative with
    | false =>
      obtain rfl : x = y := ofFloat_injective (exact.trans other.symm)
      exact .inl ⟨rfl, rfl⟩
    | true =>
      refine .inr ⟨?_, (neg_eq (by rw [exact, other]; rfl)).symm⟩
      rw [text]
      unfold numberText
      rw [exact]
      simp [zero]

end TinyScript
