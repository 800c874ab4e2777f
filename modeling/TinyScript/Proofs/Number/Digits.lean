import Mathlib.Tactic.Ring
import TinyScript.Number.Display

namespace TinyScript

/-- All bytes are digits. -/
def AllDigits (t : Text) : Prop := ∀ b ∈ t, isDigit b

namespace Text

variable {xs ys : Text}

theorem digitsValue_foldl (xs : Text) (n : Nat) :
    xs.foldl (fun n b => 10 * n + (b.toNat - (ascii '0').toNat)) n = n * 10 ^ xs.length + digitsValue xs := by
  unfold digitsValue
  induction xs generalizing n with
  | nil => simp
  | cons b xs ih =>
    rw [List.foldl_cons, List.foldl_cons, ih, ih (10 * 0 + _), List.length_cons]
    ring

theorem digitsValue_append (xs ys : Text) :
    digitsValue (xs ++ ys) = digitsValue xs * 10 ^ ys.length + digitsValue ys := by
  rw [digitsValue, List.foldl_append, digitsValue_foldl]
  rfl

theorem digitsValue_zeros (count : Nat) : digitsValue (Decimal.zeros count) = 0 := by
  induction count with
  | zero => rfl
  | succ count ih =>
    have cons : Decimal.zeros (count + 1) = [ascii '0'] ++ Decimal.zeros count := rfl
    have zero : digitsValue [ascii '0'] = 0 := rfl
    rw [cons, digitsValue_append, ih, zero, Nat.zero_mul]

theorem allDigits_append : AllDigits (xs ++ ys) ↔ AllDigits xs ∧ AllDigits ys := by
  simp [AllDigits, or_imp, forall_and]

theorem allDigits_zeros (count : Nat) : AllDigits (Decimal.zeros count) := by
  intro b mem
  rw [List.eq_of_mem_replicate mem]
  rfl

theorem isDigit_iff {b : Byte} : isDigit b = true ↔ 48 ≤ b.toNat ∧ b.toNat ≤ 57 := by
  simp [isDigit, ascii, UInt8.le_iff_toNat_le]

theorem digitsValue_cons (b : Byte) (xs : Text) :
    digitsValue (b :: xs) = (b.toNat - 48) * 10 ^ xs.length + digitsValue xs := by
  have split := digitsValue_append [b] xs
  simpa [digitsValue, ascii] using split

theorem digitsValue_lt (digits : AllDigits xs) : digitsValue xs < 10 ^ xs.length := by
  induction xs with
  | nil => decide
  | cons b xs ih =>
    have below := ih fun c mem => digits c (List.mem_cons_of_mem _ mem)
    have digit := isDigit_iff.1 (digits b List.mem_cons_self)
    rw [digitsValue_cons, List.length_cons, Nat.pow_succ]
    have small : (b.toNat - 48) * 10 ^ xs.length ≤ 9 * 10 ^ xs.length := Nat.mul_le_mul_right _ (by omega)
    omega

/-- A run of digits that does not begin with a zero is at least a power of ten. -/
theorem le_digitsValue {b : Byte} (digit : isDigit b) (some : b ≠ ascii '0') (xs : Text) :
    10 ^ xs.length ≤ digitsValue (b :: xs) := by
  have digit := isDigit_iff.1 digit
  have other : b.toNat ≠ 48 := fun same => some (UInt8.toNat_inj.1 same)
  have large : 1 * 10 ^ xs.length ≤ (b.toNat - 48) * 10 ^ xs.length := Nat.mul_le_mul_right _ (by omega)
  rw [digitsValue_cons]
  omega

/-- Zeros in front do not count. -/
theorem digitsValue_dropWhile (xs : Text) : digitsValue (xs.dropWhile (· = ascii '0')) = digitsValue xs := by
  induction xs with
  | nil => rfl
  | cons b xs ih =>
    by_cases zero : b = ascii '0'
    · subst zero
      have none : (ascii '0').toNat - 48 = 0 := rfl
      rw [List.dropWhile_cons_of_pos (by simp), ih, digitsValue_cons, none, Nat.zero_mul, Nat.zero_add]
    · rw [List.dropWhile_cons_of_neg (by simpa using zero)]

theorem ascii_toNat {c : Char} (digit : c.isDigit) : (ascii c).toNat = c.toNat := by
  have bounds : 48 ≤ c.toNat ∧ c.toNat ≤ 57 := by
    simpa [Char.isDigit, UInt32.le_iff_toNat_le] using digit
  simp only [ascii, Nat.toUInt8_eq, UInt8.toNat_ofNat']
  omega

theorem allDigits_ofNat (n : Nat) : AllDigits (ofNat n) := by
  intro b mem
  obtain ⟨c, inside, rfl⟩ := List.mem_map.1 mem
  have digit : c.isDigit := Nat.isDigit_of_mem_toDigits (b := 10) (by decide) (by decide) inside
  rw [isDigit_iff, ascii_toNat digit]
  simpa [Char.isDigit, UInt32.le_iff_toNat_le] using digit

theorem ofNat_ne_nil (n : Nat) : ofNat n ≠ [] := by
  simp [ofNat, Nat.toDigits_ne_nil]

theorem digitsValue_ofNat (n : Nat) : digitsValue (ofNat n) = n := by
  have same : ∀ (cs : List Char) (acc : Nat), (∀ c ∈ cs, c.isDigit) →
      (cs.map ascii).foldl (fun n b => 10 * n + (b.toNat - (ascii '0').toNat)) acc = Nat.ofDigitChars 10 cs acc := by
    intro cs
    induction cs with
    | nil => exact fun _ _ => Nat.ofDigitChars_nil.symm
    | cons c cs ih =>
      intro acc digits
      rw [List.map_cons, List.foldl_cons, ascii_toNat (digits c List.mem_cons_self), Nat.ofDigitChars_cons]
      exact ih _ fun d mem => digits d (List.mem_cons_of_mem _ mem)
  have digits := same (Nat.toDigits 10 n) 0 fun c mem =>
    Nat.isDigit_of_mem_toDigits (b := 10) (by decide) (by decide) mem
  rw [digitsValue, ofNat, digits, Nat.ofDigitChars_ten_toDigits]

end Text

end TinyScript
