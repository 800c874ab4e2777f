import TinyScript.Proofs.Number.Text

namespace TinyScript.Exact

variable {m k n : Nat} {e : Int} {negative : Bool} {d : Float}

/-- The exact value is the natural number. -/
def Equals (k : Nat) : Exact → Prop
  | finite negative m e => (if negative then -m else m : ℚ) * 2 ^ e = k
  | _ => False

/-- A number is whole when its mantissa can be divided by what its exponent asks for. -/
theorem whole_of_value (value : (m : ℚ) * 2 ^ e = k) : m % twoTo (-e).toNat = 0 := by
  have some : (twoTo (-e).toNat : ℚ) ≠ 0 := Nat.cast_ne_zero.2 (Nat.ne_of_gt (twoTo_pos _))
  by_cases fraction : e < 0
  · have none : e.toNat = 0 := Int.toNat_of_nonpos fraction.le
    have one : twoTo 0 = 1 := rfl
    rw [two_zpow_eq, none, one, Nat.cast_one, mul_one_div, div_eq_iff some] at value
    have value : m = k * twoTo (-e).toNat := by exact_mod_cast value
    rw [value, Nat.mul_mod_left]
  · have none : (-e).toNat = 0 := Int.toNat_of_nonpos (by omega)
    rw [none]
    exact Nat.mod_one m

/-- A double is taken for a natural number exactly when it is equal to it. Both zeros are. -/
theorem toNat?_eq_some_iff : toNat? d = some k ↔ (ofFloat d).Equals k := by
  unfold toNat?
  cases ofFloat d with
  | nan => simp [Equals]
  | infinite negative => simp [Equals]
  | finite negative m e =>
    have power : (0 : ℚ) < 2 ^ e := by positivity
    have notNegative : (0 : ℚ) ≤ k := Nat.cast_nonneg k
    have magnitude (none : ¬ (negative ∧ m ≠ 0)) : (if negative then -m else m : ℚ) = m := by
      by_cases zero : m = 0
      · simp [zero]
      · rw [if_neg fun below => none ⟨below, zero⟩]
    show (if m % twoTo (-e).toNat ≠ 0 ∨ negative ∧ m ≠ 0 then none else some (m * twoTo e.toNat / twoTo (-e).toNat)) =
      some k ↔ (if negative then -m else m : ℚ) * 2 ^ e = k
    constructor
    · intro found
      split at found
      · cases found
      · next fine =>
        obtain ⟨whole, none⟩ := not_or.1 fine
        cases found
        rw [magnitude none, whole_value (not_not.1 whole)]
    · intro value
      have none : ¬ (negative ∧ m ≠ 0) := by
        rintro ⟨below, some⟩
        have positive : (0 : ℚ) < m := Nat.cast_pos.2 (Nat.pos_of_ne_zero some)
        rw [if_pos below] at value
        nlinarith
      rw [magnitude none] at value
      have whole := whole_of_value value
      rw [if_neg (not_or.2 ⟨not_not.2 whole, none⟩)]
      have same : ((m * twoTo e.toNat / twoTo (-e).toNat : Nat) : ℚ) = k := (whole_value whole).trans value
      exact congrArg some (by exact_mod_cast same)

/-- A natural number up to `2 ^ 53` is a full mantissa with an exponent. -/
theorem exists_full (some : 0 < n) (small : n ≤ 2 ^ 53) :
    ∃ m e, Full m ∧ leastExponent ≤ e ∧ e ≤ 971 ∧ (m : ℚ) * 2 ^ e = n := by
  by_cases last : n = 2 ^ 53
  · refine ⟨2 ^ 52, 1, ⟨le_rfl, by decide⟩, by decide, by decide, ?_⟩
    rw [last]
    norm_num
  · have low : 2 ^ n.log2 ≤ n := Nat.log2_self_le (Nat.ne_of_gt some)
    have high : n < 2 ^ (n.log2 + 1) := Nat.lt_log2_self
    have places : n.log2 < 53 := (Nat.log2_lt (Nat.ne_of_gt some)).2 (by omega)
    obtain ⟨shift, sum⟩ : ∃ shift, n.log2 + shift = 52 := ⟨52 - n.log2, by omega⟩
    refine ⟨n * 2 ^ shift, -shift, ⟨?_, ?_⟩, ?_, by omega, ?_⟩
    · calc 2 ^ 52 = 2 ^ n.log2 * 2 ^ shift := by rw [← Nat.pow_add, sum]
        _ ≤ n * 2 ^ shift := Nat.mul_le_mul_right _ low
    · calc n * 2 ^ shift < 2 ^ (n.log2 + 1) * 2 ^ shift := Nat.mul_lt_mul_of_pos_right high (Nat.two_pow_pos _)
        _ = 2 ^ 53 := by rw [← Nat.pow_add, Nat.add_right_comm, sum]
    · unfold leastExponent
      omega
    · rw [zpow_neg, zpow_natCast, Nat.cast_mul, Nat.cast_pow, Nat.cast_ofNat, mul_assoc,
        mul_inv_cancel₀ (by positivity), mul_one]

/-- The double of a full mantissa and an exponent in range. -/
theorem ofFloat_ofMagnitude (full : Full m) (least : leastExponent ≤ e) (most : e ≤ 971) :
    ofFloat (ofMagnitude false (magnitudeBits m e)) = .finite false m e := by
  have full' : 2 ^ 52 ≤ m ∧ m < 2 ^ 53 := full
  have least' : -1074 ≤ e := least
  have bits : magnitudeBits m e = (e - -1074).toNat * 2 ^ 52 + m := rfl
  have finite : magnitudeBits m e < infiniteBits := by
    rw [bits]
    show _ < 2047 * 2 ^ 52
    omega
  have same := toBits_ofMagnitude finite
  rcases ofFloat_cases (magnitude_ofMagnitude finite) with ⟨-, small⟩ | ⟨m', e', exact, ⟨low, high⟩, least'', _, equal⟩
  · rw [same, bits] at small
    have small : (e - -1074).toNat * 2 ^ 52 + m < 2 ^ 52 := small
    omega
  · have equal : (e' - -1074).toNat * 2 ^ 52 + m' = (e - -1074).toNat * 2 ^ 52 + m := equal.trans (same.trans bits)
    have low : 2 ^ 52 ≤ m' := low
    have high : m' < 2 ^ 53 := high
    have least'' : -1074 ≤ e' := least''
    obtain ⟨rfl, rfl⟩ : m' = m ∧ e' = e := by omega
    exact exact

/-- The double of a natural number up to `2 ^ 53` is equal to it. -/
theorem equals_ofNat (small : n ≤ 2 ^ 53) : (ofFloat (ofNat n)).Equals n := by
  rcases Nat.eq_zero_or_pos n with rfl | some
  · have zero : ofFloat (ofNat 0) = .finite false 0 leastExponent := by decide +kernel
    rw [zero]
    simp [Equals]
  · obtain ⟨m, e, full, least, most, value⟩ := exists_full some small
    have near : Near m e (n / (1 : Nat)) := by
      rw [Nat.cast_one, div_one, ← value]
      exact Near.exact m e
    rw [ofNat, ofQuotient, if_neg (Nat.ne_of_gt some), nearestBits_eq Nat.one_pos full least near,
      ofFloat_ofMagnitude full least most]
    exact value

end TinyScript.Exact
