import TinyScript.Proofs.Number.Bits
import TinyScript.Proofs.Number.Shortest
import TinyScript.Proofs.Token.Numerals

namespace TinyScript

open Text Piece

namespace Decimal

variable {d : Decimal}

/-- A numeral with some more digits and as many places less. -/
theorem value_of_digits {n : Numeral} (more : Nat) (digits : n.digits = d.digits * 10 ^ more)
    (scale : n.scale + more = d.exponent) : n.value = d.value := by
  rw [Numeral.value, value, digits, ← scale, zpow_add₀ (by norm_num), zpow_natCast]
  push_cast
  ring

/-- A run of digits with a point somewhere is a numeral. -/
theorem spelled_plainly (d : Decimal) (whole fraction : Text) (more : Nat) (some : whole ≠ [])
    (digits : AllDigits (whole ++ fraction))
    (value : digitsValue (whole ++ fraction) = d.digits * 10 ^ more)
    (scale : (more : Int) - fraction.length = d.exponent) :
    ∃ n : Spelling, n.text = whole ++ (if fraction = [] then [] else ascii '.' :: fraction) ∧
      n.numeral.value = d.value := by
  refine ⟨⟨whole, fraction, ⟨[], [], []⟩, some, digits, .none⟩, List.append_nil _, value_of_digits more value ?_⟩
  rw [← scale]
  show (0 : Int) - fraction.length + more = more - fraction.length
  omega

/-- Digits with zeros in front of them, behind them or with a point among them are a numeral. -/
theorem plain_spelled (d : Decimal) : ∃ n : Spelling,
    n.text = plain (ofNat d.digits) ((ofNat d.digits).length + d.exponent) ∧ n.numeral.value = d.value := by
  have digits := allDigits_ofNat d.digits
  have value := digitsValue_ofNat d.digits
  have some := ofNat_ne_nil d.digits
  have length (count : Nat) : (zeros count).length = count := List.length_replicate
  generalize ofNat d.digits = run at digits value some ⊢
  generalize place : (run.length : Int) + d.exponent = point
  unfold plain
  by_cases small : point ≤ 0
  · have zero : AllDigits (Text.ofString "0") := fun b mem => List.mem_singleton.1 mem ▸ rfl
    have all := allDigits_append.2 ⟨zero, allDigits_append.2 ⟨allDigits_zeros (-point).toNat, digits⟩⟩
    have same : digitsValue (Text.ofString "0" ++ (zeros (-point).toNat ++ run)) = d.digits * 10 ^ 0 := by
      have none : digitsValue (Text.ofString "0") = 0 := rfl
      rw [digitsValue_append, digitsValue_append, digitsValue_zeros, none, value]
      omega
    have scale : ((0 : Nat) : Int) - (zeros (-point).toNat ++ run).length = d.exponent := by
      rw [List.length_append, length]
      omega
    obtain ⟨n, text, worth⟩ := spelled_plainly d _ _ 0 (by decide) all same scale
    refine ⟨n, text.trans ?_, worth⟩
    rw [if_pos small, if_neg (by simp [some])]
    simp [Text.ofString]
  · rw [if_neg small]
    by_cases whole : run.length ≤ point.toNat
    · have all : AllDigits ((run ++ zeros (point.toNat - run.length)) ++ []) := by
        rw [List.append_nil]
        exact allDigits_append.2 ⟨digits, allDigits_zeros _⟩
      have same : digitsValue ((run ++ zeros (point.toNat - run.length)) ++ []) =
          d.digits * 10 ^ (point.toNat - run.length) := by
        rw [List.append_nil, digitsValue_append, digitsValue_zeros, value, length, Nat.add_zero]
      have scale : ((point.toNat - run.length : Nat) : Int) - ([] : Text).length = d.exponent := by
        rw [List.length_nil]
        omega
      obtain ⟨n, text, worth⟩ := spelled_plainly d _ [] _ (by simp [some]) all same scale
      rw [if_pos whole]
      exact ⟨n, text.trans (List.append_nil _), worth⟩
    · have parts := List.take_append_drop point.toNat run
      have front : run.take point.toNat ≠ [] := fun none => by
        have empty := congrArg List.length none
        rw [List.length_take, List.length_nil] at empty
        omega
      have left : run.drop point.toNat ≠ [] := fun none => by
        have empty := congrArg List.length none
        rw [List.length_drop, List.length_nil] at empty
        omega
      have same : digitsValue (run.take point.toNat ++ run.drop point.toNat) = d.digits * 10 ^ 0 := by
        rw [parts, value, Nat.pow_zero, Nat.mul_one]
      have scale : ((0 : Nat) : Int) - (run.drop point.toNat).length = d.exponent := by
        rw [List.length_drop]
        omega
      obtain ⟨n, text, worth⟩ := spelled_plainly d _ _ 0 front (by rwa [parts]) same scale
      refine ⟨n, text.trans ?_, worth⟩
      rw [if_neg whole, if_neg left]
      simp [Text.ofString]

/-- One digit, perhaps others behind a point, and an exponent are a numeral. -/
theorem scientific_spelled (layout : Layout) (d : Decimal) : ∃ n : Spelling,
    n.text = scientific layout (ofNat d.digits) ((ofNat d.digits).length + d.exponent - 1) ∧
      n.numeral.value = d.value := by
  have digits := allDigits_ofNat d.digits
  have value := digitsValue_ofNat d.digits
  have some := List.length_pos_iff.2 (ofNat_ne_nil d.digits)
  unfold scientific
  generalize ofNat d.digits = run at digits value some ⊢
  generalize place : (run.length : Int) + d.exponent - 1 = power
  have powerDigits := allDigits_ofNat power.natAbs
  have powerValue := digitsValue_ofNat power.natAbs
  have powerSome := ofNat_ne_nil power.natAbs
  dsimp only
  generalize ofNat power.natAbs = shown at powerDigits powerValue powerSome ⊢
  have parts := List.take_append_drop 1 run
  have written : Exponent.Proper ⟨[ascii 'e'], [if power < 0 then ascii '-' else ascii '+'],
      zeros (layout.exponentDigits - shown.length) ++ shown⟩ := by
    refine .some ?_ (by simp [powerSome]) (allDigits_append.2 ⟨allDigits_zeros _, powerDigits⟩)
    split
    · exact .inr rfl
    · exact .inl rfl
  have exponent : Exponent.value ⟨[ascii 'e'], [if power < 0 then ascii '-' else ascii '+'],
      zeros (layout.exponentDigits - shown.length) ++ shown⟩ = power := by
    unfold Exponent.value
    rw [digitsValue_append, digitsValue_zeros, powerValue]
    dsimp only
    split
    · rw [if_pos rfl]
      omega
    · rw [if_neg (by decide)]
      omega
  refine ⟨⟨run.take 1, run.drop 1, _, fun none => ?_, by rwa [parts], written⟩, ?_, ?_⟩
  · have empty := congrArg List.length none
    rw [List.length_take, List.length_nil] at empty
    omega
  · show run.take 1 ++ (if run.drop 1 = [] then [] else _) ++ (ascii 'e' :: ([_] ++ _)) = _
    have short : run.drop 1 = [] ↔ run.length ≤ 1 := by
      rw [List.drop_eq_nil_iff]
    simp only [short]
    by_cases negative : power < 0 <;> simp [negative, Text.ofString]
  · refine value_of_digits 0 ?_ ?_
    · show digitsValue (run.take 1 ++ run.drop 1) = _
      rw [parts, value, Nat.pow_zero, Nat.mul_one]
    · show Exponent.value _ - ((run.drop 1).length : Int) + (0 : Nat) = d.exponent
      rw [exponent, List.length_drop]
      omega

/-- However a decimal is laid out, it is written as a numeral that has its value. -/
theorem text_spelled (layout : Layout) (d : Decimal) :
    ∃ n : Spelling, n.text = d.text layout ∧ n.numeral.value = d.value := by
  unfold text
  dsimp only
  split
  · exact plain_spelled d
  · exact scientific_spelled layout d

end Decimal

open Exact

/-- A double is zero or at least `2 ^ -1022`. -/
def ZeroOrNormal (d : Float) : Prop :=
  match ofFloat d with
  | .nan => False
  | .infinite _ => True
  | .finite _ mantissa exponent => mantissa = 0 ∨ (2 : ℚ) ^ (-1022 : Int) ≤ mantissa * 2 ^ exponent

/-- The bits of a double are below those of infinity, so it is finite and has no sign. -/
def Magnitude (d : Float) : Prop := d.toBits.toNat < infiniteBits

theorem toBits_ofMagnitude {bits : Nat} (finite : bits < infiniteBits) :
    (ofMagnitude false bits).toBits.toNat = bits := by
  have same : ofMagnitude false bits = Float.ofBits bits.toUInt64 := by
    simp [ofMagnitude, Nat.min_eq_left finite.le]
  rw [same, toBits_ofBits finite]

/-- Bits below those of infinity are a magnitude. -/
theorem magnitude_ofMagnitude {bits : Nat} (finite : bits < infiniteBits) : Magnitude (ofMagnitude false bits) := by
  rw [Magnitude, toBits_ofMagnitude finite]
  exact finite

/-- A magnitude is made of its bits. -/
theorem ofMagnitude_toBits {d : Float} (finite : Magnitude d) : ofMagnitude false d.toBits.toNat = d := by
  have same : ofMagnitude false d.toBits.toNat = Float.ofBits d.toBits := by
    simp [ofMagnitude, Nat.min_eq_left (Nat.le_of_lt finite)]
  rw [same, ofBits_toBits]

/-- A magnitude has a full mantissa and an exponent in range, or it has the least exponent and is below the normal
numbers. -/
theorem ofFloat_cases {d : Float} (finite : Magnitude d) :
    ofFloat d = .finite false d.toBits.toNat leastExponent ∧ d.toBits.toNat < twoTo 52 ∨
      ∃ m e, ofFloat d = .finite false m e ∧ Full m ∧ leastExponent ≤ e ∧ e ≤ 971 ∧
        magnitudeBits m e = d.toBits.toNat := by
  have bound : d.toBits.toNat < 2047 * 2 ^ 52 := finite
  unfold ofFloat
  dsimp only
  generalize d.toBits.toNat = bits at bound ⊢
  have positive : decide (twoTo 63 ≤ bits) = false := by
    refine decide_eq_false ?_
    show ¬ 2 ^ 63 ≤ bits
    omega
  have biased : bits / twoTo 52 % twoTo 11 = bits / 2 ^ 52 := by
    show bits / 2 ^ 52 % 2 ^ 11 = bits / 2 ^ 52
    omega
  have notLast : ¬ bits / 2 ^ 52 = 2047 := by omega
  rw [positive, biased, if_neg notLast]
  by_cases short : bits / 2 ^ 52 = 0
  · have fraction : bits < twoTo 52 := show bits < 2 ^ 52 by omega
    rw [if_pos short, Nat.mod_eq_of_lt fraction]
    exact .inl ⟨rfl, fraction⟩
  · rw [if_neg short]
    refine .inr ⟨_, _, rfl, ⟨Nat.le_add_right _ _, ?_⟩, ?_, ?_, ?_⟩
    · show 2 ^ 52 + bits % 2 ^ 52 < 2 ^ 53
      omega
    · omega
    · unfold leastExponent
      omega
    · have steps : (leastExponent + (bits / 2 ^ 52 - 1 : Nat) - leastExponent).toNat = bits / 2 ^ 52 - 1 := by omega
      rw [magnitudeBits, steps]
      show (bits / 2 ^ 52 - 1) * 2 ^ 52 + (2 ^ 52 + bits % 2 ^ 52) = bits
      omega

/-- A magnitude that is zero or normal is zero, or it has a full mantissa and an exponent in range. -/
theorem exact_of_magnitude {d : Float} (finite : Magnitude d) (normal : ZeroOrNormal d) :
    ofFloat d = .finite false 0 leastExponent ∧ d.toBits.toNat = 0 ∨
      ∃ m e, ofFloat d = .finite false m e ∧ Full m ∧ leastExponent ≤ e ∧ e ≤ 971 ∧
        magnitudeBits m e = d.toBits.toNat := by
  rcases ofFloat_cases finite with ⟨exact, small⟩ | full
  · unfold ZeroOrNormal at normal
    rw [exact] at normal ⊢
    rcases normal with zero | normal
    · exact .inl ⟨by rw [zero], zero⟩
    · -- Without the leading bit a number is below the normal ones.
      have small : (d.toBits.toNat : ℚ) < 2 ^ (52 : Int) := by exact_mod_cast (show d.toBits.toNat < 2 ^ 52 from small)
      have below : (d.toBits.toNat : ℚ) * 2 ^ leastExponent < 2 ^ (52 : Int) * 2 ^ leastExponent := by gcongr
      rw [← zpow_add₀ (by norm_num)] at below
      exact absurd normal (not_le.2 below)
  · exact .inr full

/-- A magnitude that is neither zero nor normal has the least exponent. -/
theorem exact_of_small {d : Float} (finite : Magnitude d) (small : ¬ ZeroOrNormal d) :
    ∃ m, ofFloat d = .finite false m leastExponent ∧ 0 < m ∧ m < twoTo 52 := by
  unfold ZeroOrNormal at small
  rcases ofFloat_cases finite with ⟨exact, below⟩ | ⟨m, e, exact, full, least, _, _⟩
  · rw [exact] at small
    exact ⟨_, exact, Nat.pos_of_ne_zero fun zero => small (.inl zero), below⟩
  · rw [exact] at small
    exact absurd (.inr (full.normal least)) small

theorem shortest_least : Decimal.shortest (twoTo 52) leastExponent = ⟨22250738585072014, -324⟩ := by
  decide +kernel

/-- The shortest decimal of a normal number is no less than the least normal number. -/
theorem normal_le_shortest {m : Nat} {e : Int} (full : Full m) (least : leastExponent ≤ e) :
    (2 : ℚ) ^ (52 + leastExponent) ≤ (Decimal.shortest m e).value := by
  have near := (Decimal.shortest_near e full.pos).low
  have power : (0 : ℚ) < 2 ^ leastExponent := by positivity
  have grows : (2 : ℚ) ^ leastExponent ≤ 2 ^ e := zpow_le_zpow_right₀ (by norm_num) least
  rw [zpow_split]
  by_cases first : m = twoTo 52
  · by_cases last : e = leastExponent
    · -- Only the least normal number itself could be shown too small, and it is not.
      have digits : twoTo (-1022 : Int).toNat * tenTo (-(-324) : Int).toNat ≤
          22250738585072014 * tenTo (-324 : Int).toNat * twoTo (-(-1022) : Int).toNat := by decide +kernel
      have digits := Nat.cast_le (α := ℚ).2 digits
      rw [Nat.cast_mul, Nat.cast_mul, Nat.cast_mul] at digits
      rw [last, first, shortest_least, ← zpow_split]
      show (2 : ℚ) ^ (-1022 : Int) ≤ (22250738585072014 : Nat) * 10 ^ (-324 : Int)
      rw [two_zpow_eq, ten_zpow_eq, mul_div_assoc', div_le_div_iff₀ (Nat.cast_pos.2 (twoTo_pos _))
        (Nat.cast_pos.2 (tenTo_pos _))]
      exact digits
    · have more : leastExponent + 1 ≤ e := by omega
      have twice : (2 : ℚ) ^ (leastExponent + 1) ≤ 2 ^ e := zpow_le_zpow_right₀ (by norm_num) more
      rw [zpow_split, zpow_one] at twice
      have mantissa : (m : ℚ) = 2 ^ 52 := by exact_mod_cast first
      rw [if_pos ⟨first, by omega⟩, mantissa] at near
      calc (2 : ℚ) ^ (52 : Int) * 2 ^ leastExponent ≤ (2 ^ 52 - 1 / 4) * (2 ^ leastExponent * 2) := by
            have split : (2 : ℚ) ^ (52 : Int) = 2 ^ 52 := rfl
            rw [split, mul_comm (2 ^ leastExponent : ℚ), ← mul_assoc]
            exact mul_le_mul_of_nonneg_right (by norm_num) power.le
        _ ≤ (2 ^ 52 - 1 / 4) * 2 ^ e := mul_le_mul_of_nonneg_left twice (by norm_num)
        _ ≤ _ := near
  · have above : twoTo 52 + 1 ≤ m := Nat.lt_of_le_of_ne full.1 (Ne.symm first)
    have above : (2 ^ 52 + 1 : ℚ) ≤ m := by exact_mod_cast above
    rw [if_neg (fun both => first both.1)] at near
    calc (2 : ℚ) ^ (52 : Int) * 2 ^ leastExponent ≤ (m - 1 / 2) * 2 ^ e :=
          mul_le_mul (by linarith [show (2 : ℚ) ^ (52 : Int) = 2 ^ 52 from rfl]) grows power.le (by linarith)
      _ ≤ _ := near

theorem Near.exact (m : Nat) (e : Int) : Near m e (m * 2 ^ e) := by
  have power : (0 : ℚ) < 2 ^ e := by positivity
  have low : (m - if m = twoTo 52 ∧ leastExponent < e then 1 / 4 else 1 / 2 : ℚ) < m := by
    split <;> linarith
  have high : (m : ℚ) < m + 1 / 2 := by linarith
  have low := mul_lt_mul_of_pos_right low power
  have high := mul_lt_mul_of_pos_right high power
  exact ⟨low.le, high.le, .inr ⟨low, high⟩⟩

/-- A number that is written in full is worth its digits. -/
theorem whole_value {m : Nat} {e : Int} (whole : m % twoTo (-e).toNat = 0) :
    ((m * twoTo e.toNat / twoTo (-e).toNat : Nat) : ℚ) = m * 2 ^ e := by
  have pos := twoTo_pos (-e).toNat
  have some : (twoTo (-e).toNat : ℚ) ≠ 0 := Nat.cast_ne_zero.2 (Nat.ne_of_gt pos)
  obtain ⟨k, multiple⟩ : twoTo (-e).toNat ∣ m * twoTo e.toNat := Dvd.dvd.mul_right (Nat.dvd_of_mod_eq_zero whole) _
  rw [two_zpow_eq, mul_div_assoc', ← Nat.cast_mul, multiple, Nat.mul_div_cancel_left k pos, Nat.cast_mul,
    mul_div_cancel_left₀ _ some]

/-- The digits of a natural number are a numeral for it. -/
theorem ofNat_spelled (n : Nat) : ∃ s : Spelling, s.text = Text.ofNat n ∧ s.numeral.value = n := by
  have digits : AllDigits (Text.ofNat n ++ []) := by
    rw [List.append_nil]
    exact allDigits_ofNat n
  refine ⟨⟨Text.ofNat n, [], ⟨[], [], []⟩, ofNat_ne_nil n, digits, .none⟩, ?_, ?_⟩
  · simp [Spelling.text, Exponent.text]
  · have scale : Numeral.scale ⟨Text.ofNat n, [], 0⟩ = 0 := rfl
    show ((Text.ofNat n ++ []).digitsValue : ℚ) * 10 ^ Numeral.scale ⟨Text.ofNat n, [], 0⟩ = n
    rw [List.append_nil, digitsValue_ofNat, scale, zpow_zero, mul_one]

/-- A number is written as a numeral for its value, or for its shortest decimal. -/
theorem magnitudeText_worth (m : Nat) (e : Int) : ∃ n : Spelling, n.text = magnitudeText m e ∧
    (n.numeral.value = m * 2 ^ e ∨ n.numeral.value = (Decimal.shortest m e).value) := by
  unfold magnitudeText
  dsimp only
  split
  · next short =>
    obtain ⟨n, text, value⟩ := ofNat_spelled (m * twoTo e.toNat / twoTo (-e).toNat)
    exact ⟨n, text, .inl (value.trans (whole_value short.1))⟩
  · obtain ⟨n, text, value⟩ := Decimal.text_spelled numberLayout (Decimal.shortest m e)
    exact ⟨n, text, .inr value⟩

/-- A number that is not zero is written as a numeral near to it. -/
theorem magnitudeText_near {m : Nat} (e : Int) (some : 0 < m) :
    ∃ n : Spelling, n.text = magnitudeText m e ∧ Near m e n.numeral.value := by
  obtain ⟨n, text, value | value⟩ := magnitudeText_worth m e
  · exact ⟨n, text, value ▸ Near.exact m e⟩
  · exact ⟨n, text, value ▸ Decimal.shortest_near e some⟩

/-- The numeral for a normal number is not below the normal numbers. -/
theorem magnitudeText_spelled {m : Nat} {e : Int} (full : Full m) (least : leastExponent ≤ e) :
    ∃ n : Spelling, n.text = magnitudeText m e ∧ Near m e n.numeral.value ∧
      (2 : ℚ) ^ (52 + leastExponent) ≤ n.numeral.value := by
  obtain ⟨n, text, value | value⟩ := magnitudeText_worth m e
  · exact ⟨n, text, value ▸ Near.exact m e, value ▸ full.normal least⟩
  · exact ⟨n, text, value ▸ Decimal.shortest_near e full.pos, value ▸ normal_le_shortest full least⟩

/-- A magnitude that is zero or normal is written as a numeral that reads as the same double. -/
theorem numberText_spelled {d : Float} (finite : Magnitude d) (normal : ZeroOrNormal d) :
    ∃ n : Spelling, n.text = numberText d ∧ n.numeral.value? = some d := by
  have same := ofMagnitude_toBits finite
  unfold numberText
  rcases exact_of_magnitude finite normal with ⟨exact, zero⟩ | ⟨m, e, exact, full, least, most, bits⟩
  · rw [exact]
    obtain ⟨n, text, value⟩ := ofNat_spelled 0
    have written : magnitudeText 0 leastExponent = Text.ofNat 0 := by decide +kernel
    have none : n.numeral.digits = 0 := by
      have power : (10 : ℚ) ^ n.numeral.scale ≠ 0 := by positivity
      have value : (n.numeral.digits : ℚ) * 10 ^ n.numeral.scale = (0 : Nat) := value
      rw [Nat.cast_zero, mul_eq_zero] at value
      exact_mod_cast value.resolve_right power
    refine ⟨n, ?_, ?_⟩
    · dsimp only
      rw [text, written]
      rfl
    · rw [zero] at same
      rw [Numeral.value?, if_pos none, same]
  · rw [exact]
    obtain ⟨n, text, near, normal⟩ := magnitudeText_spelled full least
    have reads := Numeral.value?_eq n.digits full least most near normal
    refine ⟨n, text, ?_⟩
    rw [reads, bits, same]

end TinyScript
