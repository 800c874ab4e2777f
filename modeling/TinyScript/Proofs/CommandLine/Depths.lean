import TinyScript.CommandLine
import TinyScript.Proofs.Token.Numerals

namespace TinyScript.CommandLine

open Text

variable {argument : Text} {written : DepthText} {depth : Nat} {e : UsageError} {b : Byte}

/-- What may stand before the digits of a number that is negative or is not. -/
inductive Sign : Bool → Text → Prop
  | none : Sign false []
  | plus : Sign false [ascii '+']
  | minus : Sign true [ascii '-']

/-- The argument begins with a number: blanks, a sign, and all the digits that there are behind it. -/
structure DepthText.Begins (written : DepthText) (argument : Text) : Prop where
  spelled : ∃ blanks sign, argument = blanks ++ (sign ++ (written.digits ++ written.tail)) ∧
    (∀ b ∈ blanks, Repl.isPadding b) ∧ Sign written.negative sign
  nonempty : written.digits ≠ []
  digits : AllDigits written.digits
  ends : ∀ b, written.tail.head? = some b → isDigit b = false

/-- A number that fits a machine word stands at the beginning of the argument. -/
def HasNumber (argument : Text) : Prop :=
  ∃ written : DepthText, written.Begins argument ∧ written.digits.digitsValue < wordBound

/-- The argument is a number and nothing else, and it asks for this depth. A negative number is counted downwards from
the bound of machine words. -/
def IsDepth (argument : Text) (depth : Nat) : Prop :=
  ∃ written : DepthText, written.Begins argument ∧ written.tail = [] ∧ 0 < written.digits.digitsValue ∧
    written.digits.digitsValue < wordBound ∧
    depth = if written.negative then wordBound - written.digits.digitsValue else written.digits.digitsValue

theorem isPadding_of_isDigit (digit : isDigit b) : Repl.isPadding b = false := by
  cases padding : Repl.isPadding b with
  | false => rfl
  | true =>
    simp only [Repl.isPadding, Bool.or_eq_true, decide_eq_true_eq] at padding
    rcases padding with ((((rfl | rfl) | rfl) | rfl) | rfl) | rfl <;> cases digit

/-- The sign that a text begins with. -/
def signAhead (t : Text) : Text := (t.take 1).filter fun b => b = ascii '-' || b = ascii '+'

theorem signAhead_of_isDigit (digit : isDigit b) (t : Text) : signAhead (b :: t) = [] := by
  have digit := isDigit_iff.1 digit
  refine List.filter_eq_nil_iff.2 fun c mem => ?_
  rw [List.mem_singleton.1 mem]
  simp only [Bool.or_eq_true, decide_eq_true_eq]
  rintro (rfl | rfl) <;> simp [ascii] at digit

theorem signAhead_sign (t : Text) : Sign (signAhead t = [ascii '-']) (signAhead t) := by
  cases t with
  | nil => exact .none
  | cons b t =>
    by_cases minus : b = ascii '-'
    · subst minus
      exact .minus
    · by_cases plus : b = ascii '+'
      · subst plus
        exact .plus
      · have none : signAhead (b :: t) = [] := by simp [signAhead, minus, plus]
        rw [none]
        exact .none

theorem signAhead_append (t : Text) : signAhead t ++ t.drop (signAhead t).length = t := by
  cases t with
  | nil => rfl
  | cons b t =>
    by_cases sign : b = ascii '-' ∨ b = ascii '+'
    · have one : signAhead (b :: t) = [b] := by simpa [signAhead] using sign
      simp [one]
    · have none : signAhead (b :: t) = [] := by simpa [signAhead] using sign
      simp [none]

/-- The number that an argument begins with is the one that is found. -/
theorem DepthText.Begins.ofText (begins : written.Begins argument) : ofText argument = written := by
  obtain ⟨blanks, sign, rfl, padding, signed⟩ := begins.spelled
  obtain ⟨negative, digits, tail⟩ := written
  obtain ⟨d, ds, rfl⟩ := List.exists_cons_of_ne_nil begins.nonempty
  have digit : isDigit d := begins.digits d List.mem_cons_self
  have run := Piece.takeWhile_run (d :: ds) tail begins.digits begins.ends
  have start : (blanks ++ (sign ++ (d :: ds ++ tail))).dropWhile Repl.isPadding = sign ++ (d :: ds ++ tail) := by
    rw [List.dropWhile_append_of_pos padding]
    cases signed with
    | none => simp [isPadding_of_isDigit digit]
    | plus | minus => rfl
  have found : signAhead (sign ++ (d :: ds ++ tail)) = sign := by
    cases signed with
    | none => exact signAhead_of_isDigit digit _
    | plus | minus => rfl
  unfold signAhead at found
  unfold DepthText.ofText
  simp only [start, found, List.drop_left, run]
  congr 1
  cases signed <;> rfl

/-- What is found is the number that the argument begins with, if there are digits. -/
theorem DepthText.begins_ofText (nonempty : (ofText argument).digits ≠ []) : (ofText argument).Begins argument where
  spelled := by
    let t := argument.dropWhile Repl.isPadding
    refine ⟨argument.takeWhile Repl.isPadding, signAhead t, ?_, List.all_eq_true.1 List.all_takeWhile, signAhead_sign t⟩
    show argument = _ ++ (_ ++ ((t.drop _).takeWhile isDigit ++ (t.drop _).dropWhile isDigit))
    rw [List.takeWhile_append_dropWhile]
    exact (List.takeWhile_append_dropWhile.symm.trans (congrArg _ (signAhead_append t).symm))
  nonempty := nonempty
  digits := List.all_eq_true.1 List.all_takeWhile
  ends := Piece.head?_dropWhile _

theorem hasNumber_iff : HasNumber argument ↔
    (DepthText.ofText argument).digits ≠ [] ∧ (DepthText.ofText argument).digits.digitsValue < wordBound := by
  constructor
  · rintro ⟨written, begins, fits⟩
    rw [begins.ofText]
    exact ⟨begins.nonempty, fits⟩
  · exact fun ⟨nonempty, fits⟩ => ⟨_, DepthText.begins_ofText nonempty, fits⟩

theorem readDepth_of_not_hasNumber (none : ¬ HasNumber argument) :
    readDepth argument = .error (.depthNotNumber argument) := by
  rw [hasNumber_iff, not_and_or, Classical.not_not, Nat.not_lt] at none
  exact if_pos none

/-- The depth that a number in an argument asks for, which is zero only if the number is. -/
theorem depth_eq_zero_iff (written : DepthText) (fits : written.digits.digitsValue < wordBound) :
    (if written.negative then (wordBound - written.digits.digitsValue) % wordBound
      else written.digits.digitsValue) = 0 ↔ written.digits.digitsValue = 0 := by
  generalize written.digits.digitsValue = size at fits
  split
  · constructor
    · intro zero
      by_contra some
      rw [Nat.mod_eq_of_lt (by omega)] at zero
      omega
    · rintro rfl
      exact Nat.mod_self wordBound
  · exact .rfl

theorem readDepth_of_hasNumber (some : HasNumber argument) : readDepth argument =
    if (DepthText.ofText argument).tail ≠ [] ∨ (DepthText.ofText argument).digits.digitsValue = 0 then
      .error (.depthNotPositive argument)
    else .ok (if (DepthText.ofText argument).negative then wordBound - (DepthText.ofText argument).digits.digitsValue
      else (DepthText.ofText argument).digits.digitsValue) := by
  obtain ⟨nonempty, fits⟩ := hasNumber_iff.1 some
  have proper : ¬ ((DepthText.ofText argument).digits = [] ∨
      wordBound ≤ (DepthText.ofText argument).digits.digitsValue) := by
    rw [not_or, Nat.not_le]
    exact ⟨nonempty, fits⟩
  unfold readDepth
  simp only [if_neg proper, depth_eq_zero_iff _ fits]
  split
  · rfl
  · next fine =>
    have positive : (DepthText.ofText argument).digits.digitsValue ≠ 0 := (not_or.1 fine).2
    rw [Nat.mod_eq_of_lt (by omega)]

/-- An argument is read as the depth that it asks for. -/
theorem readDepth_eq_ok_iff : readDepth argument = .ok depth ↔ IsDepth argument depth := by
  constructor
  · intro read
    by_cases some : HasNumber argument
    · obtain ⟨nonempty, fits⟩ := hasNumber_iff.1 some
      rw [readDepth_of_hasNumber some] at read
      split at read
      · cases read
      · next fine =>
        obtain ⟨whole, positive⟩ := not_or.1 fine
        cases read
        exact ⟨_, DepthText.begins_ofText nonempty, Classical.not_not.1 whole, Nat.pos_of_ne_zero positive, fits, rfl⟩
    · rw [readDepth_of_not_hasNumber some] at read
      cases read
  · rintro ⟨written, begins, whole, positive, fits, rfl⟩
    have fine : ¬ (written.tail ≠ [] ∨ written.digits.digitsValue = 0) :=
      not_or.2 ⟨Classical.not_not.2 whole, Nat.ne_of_gt positive⟩
    rw [readDepth_of_hasNumber ⟨written, begins, fits⟩, begins.ofText, if_neg fine]

/-- An argument that begins with a number but asks for no depth is zero or goes on behind the number. -/
theorem readDepth_of_not_isDepth (some : HasNumber argument) (none : ∀ depth, ¬ IsDepth argument depth) :
    readDepth argument = .error (.depthNotPositive argument) := by
  cases read : readDepth argument with
  | ok depth => exact absurd (readDepth_eq_ok_iff.1 read) (none depth)
  | error e =>
    rw [readDepth_of_hasNumber some] at read
    split at read
    · exact read.symm
    · cases read

end TinyScript.CommandLine
