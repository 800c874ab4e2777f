import TinyScript.Evaluation.Operators
import TinyScript.Proofs.Grammar.Reading
import TinyScript.Proofs.Number.Equality
import TinyScript.Proofs.Number.Text
import TinyScript.Proofs.Store.Table

namespace TinyScript

open Exact Text Piece

namespace Exact

variable {num den m m' : Nat} {e e' : Int}

/-- Mantissa and exponent of a double that is not zero. The leading bit is there unless the exponent is the least. -/
def Canonical (m : Nat) (e : Int) : Prop :=
  Full m ∧ leastExponent ≤ e ∨ (0 < m ∧ m < twoTo 52) ∧ e = leastExponent

theorem Canonical.pos (canonical : Canonical m e) : 0 < m := by
  rcases canonical with ⟨full, _⟩ | ⟨⟨some, _⟩, _⟩
  · exact full.pos
  · exact some

theorem canonical_of_ofFloat {d : Float} {negative : Bool} (exact : ofFloat d = .finite negative m e) (some : 0 < m) :
    Canonical m e := by
  unfold ofFloat at exact
  dsimp only at exact
  split at exact
  · split at exact <;> cases exact
  · split at exact
    · cases exact
      exact .inr ⟨⟨some, Nat.mod_lt _ (twoTo_pos 52)⟩, rfl⟩
    · cases exact
      have below : d.toBits.toNat % twoTo 52 < twoTo 52 := Nat.mod_lt _ (twoTo_pos 52)
      have double : twoTo 53 = twoTo 52 + twoTo 52 := rfl
      exact .inl ⟨⟨Nat.le_add_right _ _, by omega⟩, by omega⟩

/-- The bits of a double tell its mantissa and its exponent. -/
theorem Canonical.eq_of_bits (first : Canonical m e) (second : Canonical m' e')
    (same : magnitudeBits m e = magnitudeBits m' e') : m = m' ∧ e = e' := by
  have same : (e - -1074).toNat * 2 ^ 52 + m = (e' - -1074).toNat * 2 ^ 52 + m' := same
  have first : (2 ^ 52 ≤ m ∧ m < 2 ^ 53) ∧ -1074 ≤ e ∨ (0 < m ∧ m < 2 ^ 52) ∧ e = -1074 := first
  have second : (2 ^ 52 ≤ m' ∧ m' < 2 ^ 53) ∧ -1074 ≤ e' ∨ (0 < m' ∧ m' < 2 ^ 52) ∧ e' = -1074 := second
  omega

/-- A quotient near to a double below the normal ones is rounded to it. -/
theorem nearestBits_small (pos : 0 < den) (some : 0 < m) (small : m < twoTo 52)
    (near : Near m leastExponent (num / den)) : nearestBits num den = magnitudeBits m leastExponent := by
  have power : (0 : ℚ) < 2 ^ leastExponent := by positivity
  have least : (1 : ℚ) ≤ m := by exact_mod_cast some
  have most : (m + 1 : ℚ) ≤ 2 ^ (52 : Int) := by exact_mod_cast (show m + 1 ≤ 2 ^ 52 from small)
  have short : ¬ (m = twoTo 52 ∧ leastExponent < leastExponent) := fun both => lt_irrefl _ both.2
  obtain ⟨low, high, even⟩ := near
  rw [if_neg short] at low even
  have positive : (0 : ℚ) < num / den := lt_of_lt_of_le (mul_pos (by linarith) power) low
  have below : (num / den : ℚ) < 2 ^ (52 + leastExponent) := by
    rw [zpow_split]
    exact high.trans_lt (mul_lt_mul_of_pos_right (by linarith) power)
  obtain ⟨a, above, under⟩ := exists_mem_Ico_zpow positive (by norm_num : (1 : ℚ) < 2)
  have exponent : fullExponent num den = a - 52 := by
    refine fullExponent_eq pos ?_ ?_
    · rwa [show 52 + (a - 52) = a by ring]
    · rwa [show 53 + (a - 52) = a + 1 by ring]
  have less : a < 52 + leastExponent := (zpow_lt_zpow_iff_right₀ (by norm_num)).1 (above.trans_lt below)
  unfold nearestBits
  rw [exponent, max_eq_right (by omega)]
  dsimp only
  rw [mantissaAt_eq pos low high even]

theorem Canonical.nearestBits_eq (canonical : Canonical m e) (pos : 0 < den) (near : Near m e (num / den)) :
    nearestBits num den = magnitudeBits m e := by
  rcases canonical with ⟨full, least⟩ | ⟨⟨some, small⟩, rfl⟩
  · exact Exact.nearestBits_eq pos full least near
  · exact nearestBits_small pos some small near

end Exact

variable {m m' : Nat} {e e' : Int} {d d' : Float}

/-- What is printed for two different numbers is different. -/
theorem magnitudeText_injective (first : Canonical m e) (second : Canonical m' e')
    (same : magnitudeText m e = magnitudeText m' e') : m = m' ∧ e = e' := by
  obtain ⟨n, text, near⟩ := magnitudeText_near e first.pos
  obtain ⟨n', text', near'⟩ := magnitudeText_near e' second.pos
  obtain rfl : n = n' := Spelling.eq_of_text (text.trans (same.trans text'.symm))
  have quotient := n.numeral.quotient_value
  rw [← quotient] at near near'
  exact first.eq_of_bits second
    ((first.nearestBits_eq (tenTo_pos _) near).symm.trans (second.nearestBits_eq (tenTo_pos _) near'))

theorem magnitudeText_zero (e : Int) : magnitudeText 0 e = Text.ofNat 0 := by
  unfold magnitudeText
  dsimp only
  rw [Nat.zero_mul, Nat.zero_mod, Nat.zero_div]
  rfl

/-- Only zero is printed as zero. -/
theorem magnitudeText_ne_zero (some : 0 < m) : magnitudeText m e ≠ Text.ofNat 0 := by
  intro same
  obtain ⟨n, text, near⟩ := magnitudeText_near e some
  obtain ⟨n', text', zero⟩ := ofNat_spelled 0
  obtain rfl : n = n' := Spelling.eq_of_text (text.trans (same.trans text'.symm))
  have least : (1 : ℚ) ≤ m := by exact_mod_cast some
  have positive : (0 : ℚ) < n.numeral.value := by
    refine lt_of_lt_of_le (mul_pos ?_ (by positivity)) near.low
    split <;> linarith
  rw [zero] at positive
  simp at positive

theorem magnitudeText_begins (m : Nat) (e : Int) : ∃ b tail, magnitudeText m e = b :: tail ∧ isDigit b := by
  obtain ⟨n, text, _⟩ := magnitudeText_worth m e
  rw [← text]
  exact n.begins

/-- The same text stands for the same number, or for both zeros. -/
theorem magnitudeText_eq (first : m = 0 ∨ Canonical m e) (second : m' = 0 ∨ Canonical m' e')
    (same : magnitudeText m e = magnitudeText m' e') : m = m' ∧ (m = 0 ∨ e = e') := by
  rcases first with rfl | first
  · rw [magnitudeText_zero] at same
    rcases second with rfl | second
    · exact ⟨rfl, .inl rfl⟩
    · exact absurd same.symm (magnitudeText_ne_zero second.pos)
  · rcases second with rfl | second
    · rw [magnitudeText_zero] at same
      exact absurd same (magnitudeText_ne_zero first.pos)
    · obtain ⟨mantissas, exponents⟩ := magnitudeText_injective first second same
      exact ⟨mantissas, .inr exponents⟩

/-- Signs stand in front of digits, and a sign is no digit. -/
theorem sign_digits {p q : Prop} [Decidable p] [Decidable q] {b c : Byte} {xs ys : Text} (digit : isDigit b)
    (digit' : isDigit c)
    (same : Text.ofString (if p then "-" else "") ++ b :: xs = Text.ofString (if q then "-" else "") ++ c :: ys) :
    (p ↔ q) ∧ b :: xs = c :: ys := by
  have noSign {b : Byte} (digit : isDigit b) : b ≠ ascii '-' := by
    rintro rfl
    cases digit
  by_cases left : p <;> by_cases right : q <;> simp only [left, right, if_true, if_false] at same
  · exact ⟨by simp [left, right], (List.cons.inj same).2⟩
  · exact absurd (List.cons.inj same).1.symm (noSign digit')
  · exact absurd (List.cons.inj same).1 (noSign digit)
  · exact ⟨by simp [left, right], same⟩

/-- Names begin with a letter, behind a sign perhaps, and no letter is a digit. -/
theorem infinity_ne {negative p : Prop} [Decidable negative] [Decidable p] {b : Byte} {xs : Text} (digit : isDigit b) :
    (if negative then Text.ofString "-Infinity" else "Infinity") ≠
      Text.ofString (if p then "-" else "") ++ b :: xs := by
  have noLetter {c : Byte} (other : isDigit c = false) : c ≠ b := by
    rintro rfl
    rw [digit] at other
    cases other
  by_cases left : negative <;> by_cases right : p <;> simp only [left, right, if_true, if_false]
  · exact fun same => noLetter (c := ascii 'I') rfl (List.cons.inj (List.cons.inj same).2).1
  · exact fun same => noLetter (c := ascii '-') rfl (List.cons.inj same).1
  · exact fun same => absurd (List.cons.inj same).1 (by decide)
  · exact fun same => noLetter (c := ascii 'I') rfl (List.cons.inj same).1

/-- Numbers are equal when the same is printed for them. -/
theorem numberText_eq_iff (number : ofFloat d ≠ .nan) (number' : ofFloat d' ≠ .nan) :
    numberText d = numberText d' ↔ (d == d') = true := by
  rw [beq_iff]
  unfold numberText
  cases exact : ofFloat d with
  | nan => exact absurd exact number
  | infinite negative =>
    cases exact' : ofFloat d' with
    | nan => exact absurd exact' number'
    | infinite negative' => cases negative <;> cases negative' <;> simp [IsZero] <;> decide
    | finite negative' m' e' =>
      obtain ⟨b, tail, begins, digit⟩ := magnitudeText_begins m' e'
      simpa [IsZero, begins] using infinity_ne digit
  | finite negative m e =>
    have there : finite negative m e ≠ .nan := exact ▸ number
    obtain ⟨b, tail, begins, digit⟩ := magnitudeText_begins m e
    cases exact' : ofFloat d' with
    | nan => exact absurd exact' number'
    | infinite negative' => simpa [IsZero, begins] using (infinity_ne digit).symm
    | finite negative' m' e' =>
      dsimp only
      constructor
      · intro same
        obtain ⟨b', tail', begins', digit'⟩ := magnitudeText_begins m' e'
        rw [begins, begins'] at same
        obtain ⟨signs, digits⟩ := sign_digits digit digit' same
        rw [← begins, ← begins'] at digits
        have canonical (some : 0 < m) : Canonical m e := canonical_of_ofFloat exact some
        have canonical' (some : 0 < m') : Canonical m' e' := canonical_of_ofFloat exact' some
        obtain ⟨rfl, zero | rfl⟩ := magnitudeText_eq ((Nat.eq_zero_or_pos m).imp_right canonical)
          ((Nat.eq_zero_or_pos m').imp_right canonical') digits
        · exact ⟨there, .inr ⟨zero, zero⟩⟩
        · by_cases zero : m = 0
          · exact ⟨there, .inr ⟨zero, zero⟩⟩
          · obtain rfl : negative = negative' := by simpa [zero] using signs
            exact ⟨there, .inl rfl⟩
      · rintro ⟨-, same | ⟨zero, zero'⟩⟩
        · cases same
          rfl
        · cases (show m = 0 from zero)
          cases (show m' = 0 from zero')
          rw [magnitudeText_zero, magnitudeText_zero]
          simp

/-- A text and a number are joined by the text of the number. -/
theorem BinaryOperator.apply_add_number (line : Nat) (p : Packed) (d : Float) (st : State) :
    BinaryOperator.add.apply line (.string p) (.number d) st = .done (.string (p ++ (numberText d).packed)) st ∧
      BinaryOperator.add.apply line (.number d) (.string p) st = .done (.string ((numberText d).packed ++ p)) st := by
  have shown : st.store.packed (.number d) = (numberText d).packed :=
    congrArg Text.packed (by rw [Store.display, Store.text])
  constructor <;> rw [← shown] <;> rfl

theorem Packed.text_injective : Function.Injective Packed.text := fun p q same => by
  rw [← Packed.packed_text p, same, Packed.packed_text]

/-- Two numbers have the same text exactly when they are equal. So two of them are the same key of an object exactly
when they are equal: what is put under one is found under the other then, and else is out of its way. And a text joined
with one is the text joined with the other exactly when they are equal, on whichever side the number stands. -/
theorem numberText_identifies (number : d.isNaN = false) (number' : d'.isNaN = false) :
    (numberText d = numberText d' ↔ (d == d') = true) ∧
      (∀ (t t' : Token) (finish : Location) (rest rest' : List Token), t.kind = .number d → t'.kind = .number d' →
        ∃ key key', Parser.propertyKey finish (t :: rest) = .ok key rest [] ∧
          Parser.propertyKey finish (t' :: rest') = .ok key' rest' [] ∧
          ∀ (o : Table Value) (v : Value), (o.insert key v).get? key' = if d == d' then some v else o.get? key') ∧
      ∀ (line : Nat) (p : Packed) (st : State), ∃ before before' behind behind',
        BinaryOperator.add.apply line (.string p) (.number d) st = .done (.string before) st ∧
          BinaryOperator.add.apply line (.string p) (.number d') st = .done (.string before') st ∧
          BinaryOperator.add.apply line (.number d) (.string p) st = .done (.string behind) st ∧
          BinaryOperator.add.apply line (.number d') (.string p) st = .done (.string behind') st ∧
          (before = before' ↔ (d == d') = true) ∧ (behind = behind' ↔ (d == d') = true) := by
  have exact : ofFloat d ≠ .nan := mt (isNaN_iff d).2 (Bool.eq_false_iff.1 number)
  have exact' : ofFloat d' ≠ .nan := mt (isNaN_iff d').2 (Bool.eq_false_iff.1 number')
  have same := numberText_eq_iff exact exact'
  refine ⟨same, fun t t' finish rest rest' kind kind' => ?_, fun line p st => ?_⟩
  · refine ⟨_, _, Parser.propertyKey_eq (.number kind), Parser.propertyKey_eq (.number kind'), ?_⟩
    intro o v
    rw [Table.get?_insert]
    simp only [eq_comm (a := numberText d'), same]
  · obtain ⟨joined, joined'⟩ := BinaryOperator.apply_add_number line p d st
    obtain ⟨other, other'⟩ := BinaryOperator.apply_add_number line p d' st
    refine ⟨_, _, _, _, joined, other, joined', other', ?_, ?_⟩
    · rw [← same, ← Packed.text_injective.eq_iff, Packed.text_append, Packed.text_append, List.append_cancel_left_eq]
      rfl
    · rw [← same, ← Packed.text_injective.eq_iff, Packed.text_append, Packed.text_append, List.append_cancel_right_eq]
      rfl

/-- The least number that is too large to be written in full, and the double before it. -/
theorem numberText_identifies_near : Float.isNaN 1e15 = false ∧ Float.isNaN 999999999999999.875 = false ∧
    numberText 1e15 = "1000000000000000" ∧ numberText 999999999999999.875 = "999999999999999.9" ∧
    ((1e15 : Float) == 999999999999999.875) = false := by
  have whole : Float.isNaN 1e15 = false := by decide +kernel
  have fraction : Float.isNaN 999999999999999.875 = false := by decide +kernel
  have text : numberText 1e15 = "1000000000000000" := by decide +kernel
  have text' : numberText 999999999999999.875 = "999999999999999.9" := by decide +kernel
  refine ⟨whole, fraction, text, text', Bool.eq_false_iff.2 fun same => ?_⟩
  have printed := (numberText_identifies whole fraction).1.2 same
  rw [text, text'] at printed
  exact absurd printed (by decide)

end TinyScript
