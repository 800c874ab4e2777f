import TinyScript.Proofs.Number.Text

namespace TinyScript

open Exact

/-- A decimal with fewer digits than its places would need is a multiple of no power of two. -/
theorem Decimal.value_ne_dyadic {d : Decimal} (some : d.digits ≠ 0) (small : d.value < 2 ^ d.exponent) (n : Nat)
    (k : Int) : d.value ≠ n * 2 ^ k := by
  intro same
  have digits : (1 : ℚ) ≤ d.digits := by exact_mod_cast Nat.one_le_iff_ne_zero.2 some
  rcases Int.le_total 0 d.exponent with whole | fraction
  · have grows : (2 : ℚ) ^ d.exponent ≤ 10 ^ d.exponent := by
      obtain ⟨t, places⟩ := Int.eq_ofNat_of_zero_le whole
      rw [places]
      exact_mod_cast Nat.pow_le_pow_left (by decide : 2 ≤ 10) t
    have power : (0 : ℚ) < 10 ^ d.exponent := by positivity
    have least : (10 : ℚ) ^ d.exponent ≤ d.value := le_mul_of_one_le_left power.le digits
    exact absurd small (not_lt.2 (grows.trans least))
  · obtain ⟨t, places⟩ := Int.eq_ofNat_of_zero_le (Int.neg_nonneg_of_nonpos fraction)
    have places : d.exponent = -(t : Int) := by omega
    have split : (10 : ℚ) ^ t = 2 ^ t * 5 ^ t := by rw [← mul_pow]; norm_num
    rw [Decimal.value, places, zpow_neg, zpow_neg, zpow_natCast, zpow_natCast, ← div_eq_mul_inv, split,
      div_lt_iff₀ (by positivity), ← mul_assoc, inv_mul_cancel₀ (by positivity), one_mul] at small
    -- Enough factors of two make both sides whole.
    obtain ⟨j, i, exponents⟩ : ∃ j i : Nat, k + t + j = i := ⟨(-(k + t)).toNat, (k + t).toNat, by omega⟩
    rw [Decimal.value, places, zpow_neg, zpow_natCast, ← div_eq_mul_inv, split, div_eq_iff (by positivity)] at same
    have same : (d.digits * 2 ^ j : ℚ) = n * 2 ^ i * 5 ^ t := by
      rw [same, ← zpow_natCast (2 : ℚ) i, ← exponents, zpow_add₀ (by norm_num), zpow_add₀ (by norm_num), zpow_natCast,
        zpow_natCast]
      ring
    have same : d.digits * 2 ^ j = n * 2 ^ i * 5 ^ t := by exact_mod_cast same
    have coprime : Nat.Coprime (5 ^ t) (2 ^ j) := Nat.Coprime.pow t j (by decide)
    have divides : 5 ^ t ∣ d.digits := coprime.dvd_of_dvd_mul_right (same ▸ Nat.dvd_mul_left _ _)
    have enough : 5 ^ t ≤ d.digits := Nat.le_of_dvd (Nat.pos_of_ne_zero some) divides
    exact absurd small (not_lt.2 (by exact_mod_cast enough))

namespace Exact

variable {num den k : Nat} {e : Int}

theorem roundHalfEven_le (pos : 0 < den) (high : num ≤ k * den) : roundHalfEven num den ≤ k := by
  have whole := Nat.div_add_mod num den
  have rest := Nat.mod_lt num pos
  rcases Nat.lt_or_ge (num / den) k with less | exact
  · unfold roundHalfEven
    dsimp only
    split
    · exact less.le
    · split <;> omega
  · have bound : den * k ≤ den * (num / den) := Nat.mul_le_mul_left den exact
    have same : num % den = 0 := by
      rw [Nat.mul_comm] at high
      omega
    have le : num / den ≤ k := by
      refine Nat.le_of_mul_le_mul_left ?_ pos
      rw [Nat.mul_comm den k]
      omega
    unfold roundHalfEven
    dsimp only
    rw [if_pos (by omega)]
    exact le

theorem mantissaAt_le (pos : 0 < den) (high : (num / den : ℚ) ≤ k * 2 ^ e) : mantissaAt num den e ≤ k := by
  have units := scaled_den_pos num pos e
  have value := scaled_value num pos e
  have power : (0 : ℚ) < 2 ^ e := by positivity
  unfold mantissaAt
  generalize scaled num den e = quotient at units value ⊢
  obtain ⟨n, d⟩ := quotient
  dsimp only at units value ⊢
  refine roundHalfEven_le units ?_
  have bound : (n : ℚ) ≤ k * d := by
    rw [value]
    exact mul_le_mul_of_nonneg_right ((div_le_iff₀ power).2 high) (Nat.cast_nonneg d)
  exact_mod_cast bound

/-- A quotient that is below the normal numbers even when it is rounded underflows unless it is a multiple of a power
of two. -/
theorem underflows_of_ne_dyadic (pos : 0 < den) (some : (0 : ℚ) < num / den)
    (small : (num / den : ℚ) ≤ (2 ^ 53 - 1 : Nat) * 2 ^ (leastExponent - 1))
    (lost : ∀ (n : Nat) (k : Int), (num / den : ℚ) ≠ n * 2 ^ k) : Numeral.underflows num den = true := by
  obtain ⟨a, low, high⟩ := exists_mem_Ico_zpow some (by norm_num : (1 : ℚ) < 2)
  have exponent : fullExponent num den = a - 52 := by
    refine fullExponent_eq pos ?_ ?_
    · rwa [show 52 + (a - 52) = a by ring]
    · rwa [show 53 + (a - 52) = a + 1 by ring]
  have below : a - 52 < leastExponent := by
    have bound : (num / den : ℚ) < 2 ^ (53 + (leastExponent - 1)) := by
      rw [zpow_split]
      refine small.trans_lt (mul_lt_mul_of_pos_right ?_ (by positivity))
      norm_num
    have less := (zpow_lt_zpow_iff_right₀ (by norm_num : (1 : ℚ) < 2)).1 (low.trans_lt bound)
    omega
  have rest : (scaled num den (a - 52 - 1)).1 % (scaled num den (a - 52 - 1)).2 ≠ 0 := by
    intro none
    refine lost ((scaled num den (a - 52 - 1)).1 / (scaled num den (a - 52 - 1)).2) (a - 52 - 1) ?_
    have units : ((scaled num den (a - 52 - 1)).2 : ℚ) ≠ 0 :=
      Nat.cast_ne_zero.2 (Nat.ne_of_gt (scaled_den_pos num pos _))
    rw [Nat.cast_div (Nat.dvd_of_mod_eq_zero none) units, scaled_value num pos]
    field_simp
  have full : (leastExponent - (a - 52)).toNat = 1 → mantissaAt num den (a - 52) ≠ twoTo 53 := by
    intro first
    have last : a - 52 = leastExponent - 1 := by omega
    rw [last]
    exact Nat.ne_of_lt ((mantissaAt_le pos small).trans_lt (by decide))
  unfold Numeral.underflows
  dsimp only
  rw [exponent]
  by_cases first : (leastExponent - (a - 52)).toNat = 1
  · simp [below, rest, full first]
  · simp [below, rest, first]

end Exact

namespace Shortest.Interval

variable {i : Interval} {grid coarse : Int}

/-- A grid whose unit is not above that of the interval has a point in it. -/
theorem nearest?_isSome (wide : i.low < i.value ∧ i.value < i.high) (fine : (i.weights grid).1 ≤ (i.weights grid).2) :
    (i.nearest? grid).isSome := by
  have below : i.holds grid (i.value * (i.weights grid).2 / (i.weights grid).1) = true := by
    have whole := Nat.div_add_mod (i.value * (i.weights grid).2) (i.weights grid).1
    have rest := Nat.mod_lt (i.value * (i.weights grid).2) (weights_pos i grid).1
    have low : (i.low + 1) * (i.weights grid).2 ≤ i.value * (i.weights grid).2 := Nat.mul_le_mul_right _ wide.1
    have high : (i.value + 1) * (i.weights grid).2 ≤ i.high * (i.weights grid).2 := Nat.mul_le_mul_right _ wide.2
    rw [Nat.add_mul, Nat.one_mul] at low high
    have theirs := (weights_pos i grid).2
    unfold holds
    dsimp only
    rw [Nat.mul_comm (_ / _)]
    split <;> simp only [Bool.and_eq_true, decide_eq_true_eq] <;> omega
  unfold nearest?
  dsimp only
  rw [below]
  cases i.holds grid (i.value * (i.weights grid).2 / (i.weights grid).1 + 1) with
  | true => dsimp only; split <;> [rfl; (split <;> rfl)]
  | false => rfl

/-- The search does not go below a grid with a point in the interval. -/
theorem le_search_exponent (some : (i.nearest? coarse).isSome) (steps : Nat) (above : coarse ≤ grid)
    (enough : grid - steps ≤ coarse) : coarse ≤ (i.search steps grid).exponent := by
  induction steps generalizing grid with
  | zero => exact above
  | succ steps ih =>
    unfold search
    split
    · exact above
    · next none =>
      have other : coarse ≠ grid := by
        rintro rfl
        rw [none] at some
        cases some
      exact ih (by omega) (by omega)

end Shortest.Interval

/-- The shortest decimal of a number below the normal ones stays below them, and has too few digits to be a multiple of
a power of two. -/
theorem Decimal.shortest_small {m : Nat} (some : 0 < m) (small : m < twoTo 52) :
    0 < (Decimal.shortest m leastExponent).value ∧
      (Decimal.shortest m leastExponent).value ≤ (2 ^ 53 - 1 : Nat) * 2 ^ (leastExponent - 1) ∧
      ∀ (n : Nat) (k : Int), (Decimal.shortest m leastExponent).value ≠ n * 2 ^ k := by
  have near := Decimal.shortest_near leastExponent some
  have power : (0 : ℚ) < 2 ^ leastExponent := by positivity
  have least : (1 : ℚ) ≤ m := by exact_mod_cast some
  have most : (m + 1 : ℚ) ≤ 2 ^ 52 := by exact_mod_cast (show m + 1 ≤ 2 ^ 52 from small)
  have positive : 0 < (Decimal.shortest m leastExponent).value := by
    refine lt_of_lt_of_le (mul_pos ?_ power) near.low
    rw [if_neg fun both => lt_irrefl _ both.2]
    linarith
  have below : (Decimal.shortest m leastExponent).value ≤ (2 ^ 53 - 1 : Nat) * 2 ^ (leastExponent - 1) := by
    refine near.high.trans ?_
    have step : (2 : ℚ) ^ leastExponent = 2 * 2 ^ (leastExponent - 1) := by
      rw [← zpow_one_add₀ (by norm_num)]
      congr 1
    rw [step, ← mul_assoc]
    refine mul_le_mul_of_nonneg_right ?_ (by positivity)
    norm_num
    linarith
  have exponent : -324 ≤ (Decimal.shortest m leastExponent).exponent := by
    have fine : ((Shortest.interval m leastExponent).weights (-324)).1 ≤
        ((Shortest.interval m leastExponent).weights (-324)).2 := by
      show tenTo 0 * twoTo 1076 ≤ twoTo 0 * tenTo 324
      decide +kernel
    have wide : (Shortest.interval m leastExponent).low < (Shortest.interval m leastExponent).value ∧
        (Shortest.interval m leastExponent).value < (Shortest.interval m leastExponent).high := by
      simp only [Shortest.interval]
      constructor
      · split <;> omega
      · omega
    have top : -324 ≤ (Shortest.interval m leastExponent).topGrid := by
      unfold Shortest.Interval.topGrid Shortest.interval leastExponent
      dsimp only
      split <;> omega
    have last : (Shortest.interval m leastExponent).lastGrid = -1076 := rfl
    refine Shortest.Interval.le_search_exponent (Shortest.Interval.nearest?_isSome wide fine) _ top ?_
    omega
  refine ⟨positive, below, Decimal.value_ne_dyadic (fun none => ?_) ?_⟩
  · rw [Decimal.value, none] at positive
    simp at positive
  · calc (Decimal.shortest m leastExponent).value ≤ (2 ^ 53 - 1 : Nat) * 2 ^ (leastExponent - 1) := below
      _ < 2 ^ (53 : Int) * 2 ^ (leastExponent - 1) := mul_lt_mul_of_pos_right (by norm_num) (by positivity)
      _ = 2 ^ (53 + (leastExponent - 1)) := (zpow_split 53 (leastExponent - 1)).symm
      _ ≤ 2 ^ (Decimal.shortest m leastExponent).exponent :=
        zpow_le_zpow_right₀ (by norm_num) (le_trans (by decide) exponent)

/-- A number that is neither zero nor normal is written as a numeral that is out of range. -/
theorem numberText_underflows {d : Float} (finite : Magnitude d) (small : ¬ ZeroOrNormal d) :
    ∃ n : Piece.Spelling, n.text = numberText d ∧ n.numeral.value? = none := by
  obtain ⟨m, exact, some, below⟩ := exact_of_small finite small
  obtain ⟨n, text, value⟩ := Decimal.text_spelled numberLayout (Decimal.shortest m leastExponent)
  obtain ⟨positive, bound, lost⟩ := Decimal.shortest_small some below
  have written : numberText d = (Decimal.shortest m leastExponent).text numberLayout := by
    have fraction : m % twoTo (-leastExponent).toNat ≠ 0 := by
      have less (places : Nat) (more : 52 < places) : m < twoTo places :=
        below.trans (Nat.pow_lt_pow_right (by decide) more)
      rw [Nat.mod_eq_of_lt (less _ (by decide))]
      exact Nat.ne_of_gt some
    rw [numberText, exact]
    dsimp only
    rw [if_neg (by simp), magnitudeText, if_neg fun whole => fraction whole.1]
    rfl
  refine ⟨n, text.trans written.symm, ?_⟩
  rw [← value] at positive bound lost
  have digits : n.numeral.digits ≠ 0 := by
    intro none
    rw [Numeral.value, none] at positive
    simp at positive
  have quotient := n.numeral.quotient_value
  have underflows := underflows_of_ne_dyadic (tenTo_pos _) (quotient ▸ positive) (quotient ▸ bound) (quotient ▸ lost)
  unfold Numeral.value?
  rw [if_neg digits]
  split
  · rfl
  · unfold Numeral.ofQuotient?
    rw [underflows]
    rfl

end TinyScript
