import Mathlib.Algebra.Order.Archimedean.Basic
import Mathlib.Algebra.Order.Field.Power
import Mathlib.Data.Rat.Cast.Order
import Mathlib.Tactic.FieldSimp
import Mathlib.Tactic.Linarith
import Mathlib.Tactic.Positivity
import Mathlib.Tactic.Ring
import TinyScript.Number.Numeral

namespace TinyScript.Exact

variable {num den k m : Nat} {e : Int}

theorem scaled_den_pos (num : Nat) (pos : 0 < den) (e : Int) : 0 < (scaled num den e).2 :=
  Nat.mul_pos pos (Nat.pow_pos (by decide))

/-- Powers of two with natural exponents make any power of two. -/
theorem two_zpow_eq (e : Int) : (2 : ℚ) ^ e = (twoTo e.toNat : ℚ) / twoTo (-e).toNat := by
  have cast (n : Nat) : (twoTo n : ℚ) = 2 ^ n := by simp [twoTo]
  rw [cast, cast]
  rcases Int.le_total 0 e with pos | neg
  · obtain ⟨n, rfl⟩ := Int.eq_ofNat_of_zero_le pos
    simp
  · obtain ⟨n, same⟩ := Int.eq_ofNat_of_zero_le (Int.neg_nonneg_of_nonpos neg)
    have same' : e = -(n : Int) := by omega
    subst same'
    simp

theorem ten_zpow_eq (e : Int) : (10 : ℚ) ^ e = (tenTo e.toNat : ℚ) / tenTo (-e).toNat := by
  have cast (n : Nat) : (tenTo n : ℚ) = 10 ^ n := by simp [tenTo]
  rw [cast, cast]
  rcases Int.le_total 0 e with pos | neg
  · obtain ⟨n, rfl⟩ := Int.eq_ofNat_of_zero_le pos
    simp
  · obtain ⟨n, same⟩ := Int.eq_ofNat_of_zero_le (Int.neg_nonneg_of_nonpos neg)
    have same' : e = -(n : Int) := by omega
    subst same'
    simp

theorem twoTo_pos (n : Nat) : 0 < twoTo n := Nat.pow_pos (by decide)

theorem tenTo_pos (n : Nat) : 0 < tenTo n := Nat.pow_pos (by decide)

/-- A scaled quotient is the quotient in units of a power of two. -/
theorem scaled_value (num : Nat) (pos : 0 < den) (e : Int) :
    ((scaled num den e).1 : ℚ) = (num / den : ℚ) / 2 ^ e * (scaled num den e).2 := by
  have den_ne : (den : ℚ) ≠ 0 := by exact_mod_cast Nat.ne_of_gt pos
  have up : (twoTo e.toNat : ℚ) ≠ 0 := by exact_mod_cast Nat.ne_of_gt (twoTo_pos _)
  have down : (twoTo (-e).toNat : ℚ) ≠ 0 := by exact_mod_cast Nat.ne_of_gt (twoTo_pos _)
  rw [two_zpow_eq]
  simp only [scaled]
  push_cast
  field_simp

theorem scaled_div_lt (num : Nat) (pos : 0 < den) (e : Int) (k : Nat) :
    (scaled num den e).1 / (scaled num den e).2 < k ↔ (num / den : ℚ) < k * 2 ^ e := by
  have power : (0 : ℚ) < 2 ^ e := by positivity
  have den_pos : (0 : ℚ) < ((scaled num den e).2 : ℚ) := by exact_mod_cast scaled_den_pos num pos e
  rw [Nat.div_lt_iff_lt_mul (scaled_den_pos num pos e), ← Nat.cast_lt (α := ℚ)]
  push_cast
  rw [scaled_value num pos e, mul_lt_mul_iff_left₀ den_pos, div_lt_iff₀ power]

/-- The exponent at which a quotient has 53 binary digits. -/
theorem fullExponent_eq (pos : 0 < den) (low : (2 : ℚ) ^ (52 + e) ≤ num / den)
    (high : (num / den : ℚ) < 2 ^ (53 + e)) :
    fullExponent num den = e := by
  have den_pos : (0 : ℚ) < den := by exact_mod_cast pos
  have num_ne : num ≠ 0 := by
    rintro rfl
    have power : (0 : ℚ) < 2 ^ (52 + e) := by positivity
    simp at low
    linarith
  have num_low : (2 : ℚ) ^ (num.log2 : Int) ≤ num := by exact_mod_cast Nat.log2_self_le num_ne
  have num_high : (num : ℚ) < 2 ^ (num.log2 + 1 : Int) := by exact_mod_cast Nat.lt_log2_self
  have den_low : (2 : ℚ) ^ (den.log2 : Int) ≤ den := by exact_mod_cast Nat.log2_self_le (Nat.ne_of_gt pos)
  have den_high : (den : ℚ) < 2 ^ (den.log2 + 1 : Int) := by exact_mod_cast Nat.lt_log2_self
  -- The quotient is between two powers of two that are four times apart.
  have above : (num / den : ℚ) < 2 ^ (num.log2 + 1 - den.log2 : Int) := by
    rw [div_lt_iff₀ den_pos]
    calc (num : ℚ) < 2 ^ (num.log2 + 1 : Int) := num_high
      _ = 2 ^ (num.log2 + 1 - den.log2 : Int) * 2 ^ (den.log2 : Int) := by
        rw [← zpow_add₀ (by norm_num)]
        congr 1
        ring
      _ ≤ 2 ^ (num.log2 + 1 - den.log2 : Int) * den := by gcongr
  have below : (2 : ℚ) ^ (num.log2 - den.log2 - 1 : Int) < num / den := by
    rw [lt_div_iff₀ den_pos]
    calc (2 : ℚ) ^ (num.log2 - den.log2 - 1 : Int) * den
        < 2 ^ (num.log2 - den.log2 - 1 : Int) * 2 ^ (den.log2 + 1 : Int) := by gcongr
      _ = 2 ^ (num.log2 : Int) := by
        rw [← zpow_add₀ (by norm_num)]
        congr 1
        ring
      _ ≤ num := num_low
  have less : 52 + e < num.log2 + 1 - den.log2 := (zpow_lt_zpow_iff_right₀ (by norm_num)).1 (low.trans_lt above)
  have more : num.log2 - den.log2 - 1 < 53 + e := (zpow_lt_zpow_iff_right₀ (by norm_num)).1 (below.trans high)
  have cut := scaled_div_lt num pos (num.log2 - den.log2 - 52) (twoTo 52)
  have power : ((twoTo 52 : Nat) : ℚ) * 2 ^ (num.log2 - den.log2 - 52 : Int) = 2 ^ (num.log2 - den.log2 : Int) := by
    have cast : ((twoTo 52 : Nat) : ℚ) = 2 ^ (52 : Int) := by norm_num [twoTo]
    rw [cast, ← zpow_add₀ (by norm_num)]
    congr 1
    ring
  rw [power] at cut
  unfold fullExponent
  dsimp only
  split
  · next short =>
    have upper : 52 + e < num.log2 - den.log2 :=
      (zpow_lt_zpow_iff_right₀ (by norm_num)).1 (low.trans_lt (cut.1 short))
    omega
  · next full =>
    have lower : (num.log2 : Int) - den.log2 < 53 + e :=
      (zpow_lt_zpow_iff_right₀ (by norm_num)).1 ((not_lt.1 (mt cut.2 full)).trans_lt high)
    omega

/-- Rounding finds the nearest number, and from the middle between two numbers the even one. -/
theorem roundHalfEven_eq (pos : 0 < den) (low : 2 * (k * den) ≤ 2 * num + den) (high : 2 * num ≤ 2 * (k * den) + den)
    (even : k % 2 = 0 ∨ 2 * (k * den) < 2 * num + den ∧ 2 * num < 2 * (k * den) + den) :
    roundHalfEven num den = k := by
  have whole := Nat.div_add_mod num den
  have rest := Nat.mod_lt num pos
  have upper : num / den < k + 1 := by
    rw [Nat.div_lt_iff_lt_mul pos, Nat.add_mul]
    omega
  have lower : k < num / den + 2 := by
    rw [← Nat.mul_lt_mul_right pos, Nat.add_mul, Nat.mul_comm (num / den)]
    omega
  unfold roundHalfEven
  dsimp only
  obtain same | before : num / den = k ∨ num / den + 1 = k := by omega
  · rw [same, Nat.mul_comm] at whole
    rw [same]
    split
    · rfl
    · split
      · omega
      · omega
  · have shift : den * (num / den) + den = k * den := by
      rw [← before, Nat.add_mul, Nat.mul_comm]
      omega
    split
    · omega
    · split
      · exact before
      · omega

/-- The mantissa of a quotient that is not further away than the half of a unit. -/
theorem mantissaAt_eq (pos : 0 < den) (low : (k - 1 / 2 : ℚ) * 2 ^ e ≤ num / den)
    (high : (num / den : ℚ) ≤ (k + 1 / 2) * 2 ^ e)
    (even : k % 2 = 0 ∨ (k - 1 / 2 : ℚ) * 2 ^ e < num / den ∧ (num / den : ℚ) < (k + 1 / 2) * 2 ^ e) :
    mantissaAt num den e = k := by
  have power : (0 : ℚ) < 2 ^ e := by positivity
  rw [← le_div_iff₀ power] at low
  rw [← div_le_iff₀ power] at high
  rw [← lt_div_iff₀ power, ← div_lt_iff₀ power] at even
  have units := scaled_den_pos num pos e
  have value := scaled_value num pos e
  unfold mantissaAt
  generalize scaled num den e = quotient at units value ⊢
  obtain ⟨n, d⟩ := quotient
  dsimp only at units value ⊢
  have units' : (0 : ℚ) < d := by exact_mod_cast units
  rw [← div_eq_iff units'.ne'] at value
  rw [← value, le_div_iff₀ units'] at low
  rw [← value, div_le_iff₀ units'] at high
  rw [← value, lt_div_iff₀ units', div_lt_iff₀ units'] at even
  refine roundHalfEven_eq units ?_ ?_ (even.imp_right fun inside => ⟨?_, ?_⟩)
  · exact_mod_cast (by linarith : (2 * (k * d) : ℚ) ≤ 2 * n + d)
  · exact_mod_cast (by linarith : (2 * n : ℚ) ≤ 2 * (k * d) + d)
  · exact_mod_cast (by linarith [inside.1] : (2 * (k * d) : ℚ) < 2 * n + d)
  · exact_mod_cast (by linarith [inside.2] : (2 * n : ℚ) < 2 * (k * d) + d)

/-- A number rounds to `m · 2 ^ e`. The gap below a power of two is half the gap above it, and the ends round to
an even mantissa. -/
structure Near (m : Nat) (e : Int) (q : ℚ) : Prop where
  low : (m - if m = twoTo 52 ∧ leastExponent < e then 1 / 4 else 1 / 2 : ℚ) * 2 ^ e ≤ q
  high : q ≤ (m + 1 / 2) * 2 ^ e
  even : m % 2 = 0 ∨
    (m - if m = twoTo 52 ∧ leastExponent < e then 1 / 4 else 1 / 2 : ℚ) * 2 ^ e < q ∧ q < (m + 1 / 2) * 2 ^ e

/-- A mantissa has 53 binary digits. -/
def Full (m : Nat) : Prop := twoTo 52 ≤ m ∧ m < twoTo 53

theorem Full.pos (full : Full m) : 0 < m := (twoTo_pos 52).trans_le full.1

theorem zpow_split (a e : Int) : (2 : ℚ) ^ (a + e) = 2 ^ a * 2 ^ e := zpow_add₀ (by norm_num) a e

/-- With a full mantissa a number is not below the normal ones. -/
theorem Full.normal (full : Full m) (least : leastExponent ≤ e) : (2 : ℚ) ^ (52 + leastExponent) ≤ m * 2 ^ e := by
  have mantissa : (2 ^ 52 : ℚ) ≤ m := by exact_mod_cast full.1
  have power : (2 : ℚ) ^ leastExponent ≤ 2 ^ e := zpow_le_zpow_right₀ (by norm_num) least
  rw [zpow_split]
  exact mul_le_mul mantissa power (by positivity) (by positivity)

/-- A quotient that is near to a full mantissa is rounded to it. -/
theorem nearestBits_eq (pos : 0 < den) (full : Full m) (least : leastExponent ≤ e) (near : Near m e (num / den)) :
    nearestBits num den = magnitudeBits m e := by
  have power : (0 : ℚ) < 2 ^ e := by positivity
  have m_low : (2 ^ 52 : ℚ) ≤ m := by exact_mod_cast full.1
  have m_high : (m : ℚ) + 1 ≤ 2 ^ 53 := by exact_mod_cast full.2
  have below : (num / den : ℚ) < 2 ^ (53 + e) := by
    have scaled : (m + 1 / 2 : ℚ) * 2 ^ e < 2 ^ 53 * 2 ^ e := by
      gcongr
      linarith
    rw [zpow_split]
    exact near.high.trans_lt scaled
  have loose : (m - 1 / 2 : ℚ) * 2 ^ e ≤ num / den := by
    refine le_trans ?_ near.low
    gcongr
    split <;> norm_num
  by_cases above : (2 : ℚ) ^ (52 + e) ≤ num / den
  · have exponent := fullExponent_eq pos above below
    have mantissa : mantissaAt num den e = m := by
      refine mantissaAt_eq pos loose near.high (near.even.imp_right fun inside => ⟨?_, inside.2⟩)
      refine lt_of_le_of_lt ?_ inside.1
      gcongr
      split <;> norm_num
    unfold nearestBits
    rw [exponent, max_eq_left least]
    dsimp only
    rw [mantissa]
  · -- Only below a power of two the quotient has an exponent of its own.
    have below := not_le.1 above
    rw [zpow_split] at below
    have same : m = twoTo 52 := by
      have bound : (m - 1 / 2 : ℚ) < 2 ^ (52 : Int) := lt_of_mul_lt_mul_right (loose.trans_lt below) power.le
      have bound : (m : ℚ) < ((2 ^ 52 + 1 : Nat) : ℚ) := by
        push_cast
        linarith [show (2 : ℚ) ^ (52 : Int) = 2 ^ 52 from rfl]
      exact Nat.le_antisymm (Nat.lt_succ_iff.1 (Nat.cast_lt.1 bound)) full.1
    have step : (2 : ℚ) ^ e = 2 * 2 ^ (e - 1) := by
      rw [← zpow_one_add₀ (by norm_num)]
      congr 1
      ring
    have value : (m : ℚ) = 2 ^ 52 := by exact_mod_cast congrArg (Nat.cast (R := ℚ)) same
    have lower : (0 : ℚ) < 2 ^ (e - 1) := by positivity
    have exponent : fullExponent num den = e - 1 := by
      refine fullExponent_eq pos ?_ ?_
      · rw [zpow_split]
        rw [step, value] at loose
        norm_num at loose ⊢
        linarith
      · have shift : 53 + (e - 1) = 52 + e := by ring
        rw [shift, zpow_split]
        exact below
    unfold nearestBits
    rw [exponent]
    dsimp only
    by_cases first : e = leastExponent
    · have mantissa : mantissaAt num den e = m := mantissaAt_eq pos loose near.high (.inl (same ▸ rfl))
      rw [max_eq_right (by omega), ← first, mantissa]
    · have low := near.low
      rw [if_pos ⟨same, lt_of_le_of_ne least (Ne.symm first)⟩, step, value] at low
      have mantissa : mantissaAt num den (e - 1) = twoTo 53 := by
        refine mantissaAt_eq pos ?_ ?_ (.inl rfl)
        · norm_num [twoTo] at low ⊢
          linarith
        · rw [step] at below
          norm_num [twoTo] at below ⊢
          linarith
      rw [max_eq_left (by omega), mantissa, same]
      have double : twoTo 53 = twoTo 52 + twoTo 52 := rfl
      have next : (e - leastExponent).toNat = (e - 1 - leastExponent).toNat + 1 := by omega
      rw [magnitudeBits, magnitudeBits, next, double, Nat.add_mul, Nat.one_mul, Nat.add_assoc]

/-- A quotient with the size of a normal number does not underflow. -/
theorem not_underflows (pos : 0 < den) (normal : (2 : ℚ) ^ (52 + leastExponent) ≤ num / den) :
    Numeral.underflows num den = false := by
  have some : (0 : ℚ) < num / den := lt_of_lt_of_le (by positivity) normal
  obtain ⟨a, low, high⟩ := exists_mem_Ico_zpow some (by norm_num : (1 : ℚ) < 2)
  have shift : a = 52 + (a - 52) := by ring
  have exponent : fullExponent num den = a - 52 := by
    refine fullExponent_eq pos (shift ▸ low) ?_
    have shift : 53 + (a - 52) = a + 1 := by ring
    rw [shift]
    exact high
  have large : 52 + leastExponent < a + 1 := (zpow_lt_zpow_iff_right₀ (by norm_num)).1 (normal.trans_lt high)
  unfold Numeral.underflows
  have ready : ¬ a - 52 < leastExponent := by omega
  simp [exponent, ready]

end TinyScript.Exact
