import TinyScript.Number.Shortest
import TinyScript.Proofs.Number.Rounding

namespace TinyScript

open Exact

/-- What a decimal stands for. -/
def Decimal.value (d : Decimal) : ℚ := d.digits * 10 ^ d.exponent

namespace Shortest.Interval

variable {i : Interval} {grid : Int} {point : Nat}

theorem weights_pos (i : Interval) (grid : Int) : 0 < (i.weights grid).1 ∧ 0 < (i.weights grid).2 :=
  ⟨Nat.mul_pos (tenTo_pos _) (twoTo_pos _), Nat.mul_pos (twoTo_pos _) (tenTo_pos _)⟩

/-- Points of the grid and units of the interval are multiples of a common unit. -/
theorem exists_common (i : Interval) (grid : Int) : ∃ unit : ℚ, 0 < unit ∧
    (∀ a : Nat, (a * 2 ^ i.exponent : ℚ) = (a * (i.weights grid).2 : Nat) * unit) ∧
      ∀ point : Nat, (point * 10 ^ grid : ℚ) = (point * (i.weights grid).1 : Nat) * unit := by
  have theirs : (0 : ℚ) < (i.weights grid).2 := by exact_mod_cast (weights_pos i grid).2
  have two : (twoTo (-i.exponent).toNat : ℚ) ≠ 0 := by exact_mod_cast Nat.ne_of_gt (twoTo_pos _)
  have ten : (tenTo (-grid).toNat : ℚ) ≠ 0 := by exact_mod_cast Nat.ne_of_gt (tenTo_pos _)
  have value : ((i.weights grid).1 : ℚ) * 2 ^ i.exponent = 10 ^ grid * (i.weights grid).2 := by
    rw [two_zpow_eq, ten_zpow_eq]
    simp only [weights]
    push_cast
    field_simp
  refine ⟨2 ^ i.exponent / (i.weights grid).2, by positivity, fun a => ?_, fun point => ?_⟩
  · push_cast
    field_simp
  · push_cast
    rw [mul_div_assoc', eq_div_iff theirs.ne', mul_assoc, ← value, mul_assoc]

/-- A point that the interval holds is between its ends. -/
theorem bounds_of_holds (inside : i.holds grid point) :
    (i.low * 2 ^ i.exponent : ℚ) ≤ point * 10 ^ grid ∧ (point * 10 ^ grid : ℚ) ≤ i.high * 2 ^ i.exponent ∧
      (i.closed = true ∨ (i.low * 2 ^ i.exponent : ℚ) < point * 10 ^ grid ∧
        (point * 10 ^ grid : ℚ) < i.high * 2 ^ i.exponent) := by
  obtain ⟨unit, pos, ends, points⟩ := exists_common i grid
  rw [ends, ends, points, mul_le_mul_iff_left₀ pos, mul_le_mul_iff_left₀ pos, mul_lt_mul_iff_left₀ pos,
    mul_lt_mul_iff_left₀ pos]
  unfold Interval.holds at inside
  dsimp only at inside
  simp only [Nat.cast_le, Nat.cast_lt]
  split at inside
  · next closed =>
    obtain ⟨low, high⟩ := Bool.and_eq_true_iff.1 inside
    exact ⟨of_decide_eq_true low, of_decide_eq_true high, .inl closed⟩
  · obtain ⟨low, high⟩ := Bool.and_eq_true_iff.1 inside
    have low := of_decide_eq_true low
    have high := of_decide_eq_true high
    exact ⟨low.le, high.le, .inr ⟨low, high⟩⟩

theorem holds_of_nearest? (found : i.nearest? grid = some point) : i.holds grid point := by
  unfold nearest? at found
  dsimp only at found
  generalize i.value * (i.weights grid).2 / (i.weights grid).1 = below at found
  split at found
  · next lower upper =>
    split at found
    · exact Option.some.inj found ▸ lower
    · split at found
      · exact Option.some.inj found ▸ upper
      · obtain even | odd := Nat.mod_two_eq_zero_or_one below
        · rw [even] at found
          exact Option.some.inj found ▸ lower
        · rw [odd] at found
          exact Option.some.inj found ▸ upper
  · next lower _ => exact Option.some.inj found ▸ lower
  · next _ upper => exact Option.some.inj found ▸ upper
  · cases found

/-- The value is a point of the last grid. -/
theorem lastGrid_dvd (i : Interval) : (i.weights i.lastGrid).1 ∣ i.value * (i.weights i.lastGrid).2 := by
  unfold lastGrid weights
  dsimp only
  rcases Int.le_total 0 i.exponent with pos | neg
  · have none : (-i.exponent).toNat = 0 := by omega
    rw [min_eq_right pos, none]
    exact Nat.one_dvd _
  · have none : i.exponent.toNat = 0 := by omega
    have divides : twoTo (-i.exponent).toNat ∣ tenTo (-i.exponent).toNat :=
      pow_dvd_pow_of_dvd (by decide : 2 ∣ 10) _
    rw [min_eq_left neg, none]
    have one (n : Nat) : tenTo 0 * n = n := Nat.one_mul n
    have one' (n : Nat) : twoTo 0 * n = n := Nat.one_mul n
    rw [one, one']
    exact divides.trans (Nat.dvd_mul_left _ _)

/-- The search ends at a point in the interval. -/
theorem search_holds (i : Interval) (inside : i.low < i.value ∧ i.value < i.high) (steps : Nat) (grid : Int)
    (last : grid = i.lastGrid + steps) : i.holds (i.search steps grid).exponent (i.search steps grid).digits := by
  induction steps generalizing grid with
  | zero =>
    have same : grid = i.lastGrid := by omega
    subst same
    have divides := Nat.div_mul_cancel (lastGrid_dvd i)
    have theirs := (weights_pos i i.lastGrid).2
    have low := (Nat.mul_lt_mul_right theirs).2 inside.1
    have high := (Nat.mul_lt_mul_right theirs).2 inside.2
    unfold search Interval.holds
    dsimp only
    rw [divides]
    split <;> simp [low, high, low.le, high.le]
  | succ steps ih =>
    unfold search
    split
    · next found => exact holds_of_nearest? found
    · exact ih (grid - 1) (by omega)

theorem lastGrid_le_topGrid (i : Interval) : i.lastGrid ≤ i.topGrid := by
  unfold lastGrid topGrid
  dsimp only
  split <;> omega

end Shortest.Interval

open Shortest

/-- The shortest decimal rounds to the number for which it stands. -/
theorem Decimal.shortest_near {m : Nat} (e : Int) (some : 0 < m) : Near m e (Decimal.shortest m e).value := by
  have low : (interval m e).low < (interval m e).value := by
    simp only [interval]
    split <;> omega
  have high : (interval m e).value < (interval m e).high := by
    simp only [interval]
    omega
  have grids := Interval.lastGrid_le_topGrid (interval m e)
  have inside := Interval.search_holds (interval m e) ⟨low, high⟩
    ((interval m e).topGrid - (interval m e).lastGrid).toNat (interval m e).topGrid (by omega)
  obtain ⟨low, high, even⟩ := Interval.bounds_of_holds inside
  -- The ends of the interval are in quarters.
  have quarter : (2 : ℚ) ^ (interval m e).exponent = 2 ^ e / 4 := by
    simp only [interval]
    rw [zpow_sub₀ (by norm_num)]
    norm_num
  have least : ((interval m e).low * 2 ^ (interval m e).exponent : ℚ) =
      (m - if m = twoTo 52 ∧ leastExponent < e then 1 / 4 else 1 / 2) * 2 ^ e := by
    rw [quarter]
    simp only [interval]
    split
    · rw [Nat.cast_sub (by omega)]
      push_cast
      ring
    · rw [Nat.cast_sub (by omega)]
      push_cast
      ring
  have most : ((interval m e).high * 2 ^ (interval m e).exponent : ℚ) = (m + 1 / 2) * 2 ^ e := by
    rw [quarter]
    simp only [interval]
    push_cast
    ring
  rw [least] at low even
  rw [most] at high even
  exact ⟨low, high, even.imp_left fun closed => of_decide_eq_true closed⟩

end TinyScript
