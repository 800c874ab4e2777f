import TinyScript.Token.Piece
import TinyScript.Proofs.Number.Digits
import TinyScript.Proofs.Number.Rounding

namespace TinyScript

open Exact Text

namespace Numeral

/-- What a numeral stands for. -/
def value (n : Numeral) : ℚ := n.digits * 10 ^ n.scale

variable {n : Numeral}

/-- The magnitude of a numeral says between which powers of ten it is. -/
theorem magnitude_bounds (digits : AllDigits (n.whole ++ n.fraction)) (some : n.digits ≠ 0) :
    (10 : ℚ) ^ (n.magnitude - 1) ≤ n.value ∧ n.value < 10 ^ n.magnitude := by
  have ten : (10 : ℚ) ≠ 0 := by norm_num
  have power : (0 : ℚ) < 10 ^ n.scale := by positivity
  have same := digitsValue_dropWhile (n.whole ++ n.fraction)
  have first := List.head?_dropWhile_not (· = ascii '0') (n.whole ++ n.fraction)
  have inside : AllDigits ((n.whole ++ n.fraction).dropWhile (· = ascii '0')) :=
    fun b mem => digits b ((List.dropWhile_sublist _).subset mem)
  unfold Numeral.magnitude
  unfold Numeral.digits at some
  generalize (n.whole ++ n.fraction).dropWhile (· = ascii '0') = run at same first inside
  cases run with
  | nil => exact absurd (same.symm.trans rfl) some
  | cons b run =>
    have low := le_digitsValue (inside b List.mem_cons_self) (by simpa using first) run
    have high := digitsValue_lt inside
    rw [same] at low high
    have low : (10 ^ run.length : ℚ) ≤ n.digits := by exact_mod_cast low
    have high : (n.digits : ℚ) < 10 ^ (run.length + 1) := by exact_mod_cast high
    have shift : ((b :: run).length : Int) + n.scale - 1 = run.length + n.scale := by
      rw [List.length_cons]
      omega
    rw [shift, zpow_add₀ ten, zpow_add₀ ten, zpow_natCast, zpow_natCast]
    exact ⟨mul_le_mul_of_nonneg_right low power.le, mul_lt_mul_of_pos_right high power⟩

/-- The quotient that is rounded is what the numeral stands for. -/
theorem quotient_value (n : Numeral) :
    ((n.digits * tenTo n.scale.toNat : Nat) : ℚ) / (tenTo (-n.scale).toNat : Nat) = n.value := by
  rw [value, ten_zpow_eq]
  push_cast
  ring

/-- Doubles are far below this power of ten. -/
theorem two_zpow_lt : (2 : ℚ) ^ (1024 : Int) < 10 ^ (400 : Int) := by
  have small : (2 ^ 64 : ℚ) < 10 ^ 25 := by norm_num
  have powers := pow_lt_pow_left₀ small (by norm_num) (by norm_num : 16 ≠ 0)
  rw [← pow_mul, ← pow_mul] at powers
  exact powers

/-- A numeral near to a double that is not too small reads as the double. -/
theorem value?_eq {m : Nat} {e : Int} (digits : AllDigits (n.whole ++ n.fraction)) (full : Full m)
    (least : leastExponent ≤ e) (most : e ≤ 971) (near : Near m e n.value)
    (normal : (2 : ℚ) ^ (52 + leastExponent) ≤ n.value) :
    n.value? = some (ofMagnitude false (magnitudeBits m e)) := by
  have den : 0 < tenTo (-n.scale).toNat := tenTo_pos _
  have quotient := n.quotient_value
  have some : n.digits ≠ 0 := by
    intro none
    have power : (0 : ℚ) < 2 ^ (52 + leastExponent) := by positivity
    rw [value, none] at normal
    simp at normal
    linarith
  have below : n.value < 10 ^ (400 : Int) := by
    have high : (m : ℚ) + 1 ≤ 2 ^ 53 := by exact_mod_cast full.2
    have power : (2 : ℚ) ^ e ≤ 2 ^ (971 : Int) := zpow_le_zpow_right₀ (by norm_num) most
    calc n.value ≤ (m + 1 / 2) * 2 ^ e := near.high
      _ ≤ 2 ^ (53 : Int) * 2 ^ (971 : Int) :=
        mul_le_mul (by linarith [show (2 : ℚ) ^ (53 : Int) = 2 ^ 53 from rfl]) power (by positivity) (by positivity)
      _ = 2 ^ (1024 : Int) := (zpow_add₀ (by norm_num) 53 971).symm
      _ < 10 ^ (400 : Int) := two_zpow_lt
  have bounds := magnitude_bounds digits some
  have notLarge : n.magnitude - 1 < 400 :=
    (zpow_lt_zpow_iff_right₀ (by norm_num : (1 : ℚ) < 10)).1 (bounds.1.trans_lt below)
  have notSmall : -400 < n.magnitude := by
    have above : (10 : ℚ) ^ (-400 : Int) < 2 ^ (52 + leastExponent) := by
      have upper : (2 : ℚ) ^ (1022 : Int) < 10 ^ (400 : Int) :=
        (zpow_lt_zpow_right₀ (by norm_num) (by decide)).trans two_zpow_lt
      have lower := (inv_lt_inv₀ (by positivity) (by positivity)).2 upper
      rwa [← zpow_neg, ← zpow_neg] at lower
    exact (zpow_lt_zpow_iff_right₀ (by norm_num : (1 : ℚ) < 10)).1 (above.trans (normal.trans_lt bounds.2))
  have finite : magnitudeBits m e < infiniteBits := by
    have high : m < 2 ^ 53 := full.2
    have steps : (e - leastExponent).toNat ≤ 2045 := by
      unfold leastExponent at least ⊢
      omega
    have scaled : (e - leastExponent).toNat * 2 ^ 52 ≤ 2045 * 2 ^ 52 := Nat.mul_le_mul_right _ steps
    show (e - leastExponent).toNat * 2 ^ 52 + m < 2047 * 2 ^ 52
    omega
  have bits := nearestBits_eq den full least (quotient ▸ near)
  have kept := not_underflows den (quotient ▸ normal)
  unfold value?
  rw [if_neg some, if_neg (by omega)]
  unfold ofQuotient?
  rw [bits, kept]
  simp [finite]

end Numeral

end TinyScript
