import TinyScript.Proofs.Number.Reading

namespace TinyScript

open Text

/-- What can stand behind a word or a number without becoming part of it. -/
def Clear (rest : Text) : Prop := ∀ b, rest.head? = some b → isWordByte b = false ∧ b ≠ ascii '.'

namespace Clear

theorem nil : Clear [] := fun b found => by cases found

theorem cons {b : Byte} {rest : Text} (ends : isWordByte b = false ∧ b ≠ ascii '.') : Clear (b :: rest) :=
  fun _ found => Option.some.inj found ▸ ends

theorem notDigit {rest : Text} (clear : Clear rest) : ∀ b, rest.head? = some b → isDigit b = false :=
  fun b found => (Bool.or_eq_false_iff.1 (clear b found).1).2

theorem notLetter {rest : Text} (clear : Clear rest) : ∀ b, rest.head? = some b → isLetter b = false :=
  fun b found => (Bool.or_eq_false_iff.1 (clear b found).1).1

end Clear

namespace Piece

variable {rest : Text} {p : Byte → Bool}

/-- A run ends where something else follows. -/
theorem takeWhile_run (xs rest : Text) (all : ∀ b ∈ xs, p b) (stop : ∀ b, rest.head? = some b → p b = false) :
    (xs ++ rest).takeWhile p = xs ∧ (xs ++ rest).dropWhile p = rest := by
  have none : rest.takeWhile p = [] ∧ rest.dropWhile p = rest := by
    cases rest with
    | nil => exact ⟨rfl, rfl⟩
    | cons b rest => simp [stop b rfl]
  constructor
  · rw [List.takeWhile_append_of_pos all, none.1, List.append_nil]
  · rw [List.dropWhile_append_of_pos all, none.2]

/-- Behind a run something else follows. -/
theorem head?_dropWhile (source : Text) : ∀ b, (source.dropWhile p).head? = some b → p b = false := by
  intro b begins
  have stops := List.head?_dropWhile_not p source
  rw [begins] at stops
  simpa using stops

/-- An exponent that can be written: none at all, or a mark, a sign and digits. -/
inductive Exponent.Proper : Exponent → Prop
  | none : Proper ⟨[], [], []⟩
  | some {sign : Byte} {digits : Text} : sign = ascii '+' ∨ sign = ascii '-' → digits ≠ [] → AllDigits digits →
    Proper ⟨[ascii 'e'], [sign], digits⟩

theorem Exponent.Proper.valid {e : Exponent} (proper : e.Proper) : e.valid = true := by
  cases proper with
  | none => rfl
  | some _ some _ => simp [Exponent.valid, some]

theorem fraction_none (stop : ∀ b, rest.head? = some b → b ≠ ascii '.') : fraction rest = ([], rest) := by
  unfold fraction
  split
  · next point digit rest =>
    rw [if_neg fun both => stop point rfl both.1]
  · rfl

theorem fraction_some {digit : Byte} {digits : Text} (all : AllDigits (digit :: digits))
    (stop : ∀ b, rest.head? = some b → isDigit b = false) :
    fraction (ascii '.' :: digit :: (digits ++ rest)) = (digit :: digits, rest) := by
  have run := takeWhile_run _ _ (fun b mem => all b (List.mem_cons_of_mem _ mem)) stop
  show (if _ then (_, _) else _) = _
  rw [if_pos ⟨rfl, all digit List.mem_cons_self⟩, run.1, run.2]

theorem exponent_none (stop : ∀ b, rest.head? = some b → isLetter b = false) :
    exponent rest = (⟨[], [], []⟩, rest) := by
  cases rest with
  | nil => rfl
  | cons b rest =>
    have letter := stop b rfl
    have other : ¬ (b = ascii 'e' ∨ b = ascii 'E') := by
      rintro (rfl | rfl) <;> cases letter
    exact if_neg other

theorem exponent_some {mark : Byte} {sign digits : Text} (isMark : mark = ascii 'e' ∨ mark = ascii 'E')
    (signs : sign = [] ∨ sign = [ascii '+'] ∨ sign = [ascii '-']) (some : digits ≠ []) (all : AllDigits digits)
    (stop : ∀ b, rest.head? = Option.some b → isDigit b = false) :
    exponent (mark :: (sign ++ (digits ++ rest))) = (⟨[mark], sign, digits⟩, rest) := by
  have run := takeWhile_run _ _ all stop
  have kept : ((sign ++ (digits ++ rest)).take 1).filter (fun b => b = ascii '+' || b = ascii '-') = sign := by
    rcases signs with rfl | rfl | rfl
    · obtain ⟨digit, more, rfl⟩ := List.exists_cons_of_ne_nil some
      have isDigit := all digit List.mem_cons_self
      have noSign : ¬ (digit = ascii '+' ∨ digit = ascii '-') := by
        rintro (rfl | rfl) <;> cases isDigit
      simpa using noSign
    · rfl
    · rfl
  rw [exponent.eq_def]
  dsimp only
  rw [if_pos isMark, kept, List.drop_left, run.1, run.2]

theorem exponent_proper {e : Exponent} (proper : e.Proper) (clear : Clear rest) :
    exponent (e.text ++ rest) = (e, rest) := by
  cases proper with
  | none => exact exponent_none clear.notLetter
  | some signs some all =>
    rcases signs with rfl | rfl
    · exact exponent_some (.inl rfl) (.inr (.inl rfl)) some all clear.notDigit
    · exact exponent_some (.inl rfl) (.inr (.inr rfl)) some all clear.notDigit

/-- When nothing spoils a number. -/
theorem not_spoiled_iff {e : Exponent} : (!e.valid || (rest.head?.map isLetter).getD false) = false ↔
    e.valid ∧ ∀ b, rest.head? = some b → isLetter b = false := by
  cases rest <;> simp

/-- A number as it is written: digits, perhaps a fraction, perhaps an exponent. -/
structure Spelling where
  whole : Text
  fraction : Text
  exponent : Exponent
  some : whole ≠ []
  digits : AllDigits (whole ++ fraction)
  proper : exponent.Proper

namespace Spelling

def text (n : Spelling) : Text :=
  n.whole ++ (if n.fraction = [] then [] else ascii '.' :: n.fraction) ++ n.exponent.text

def numeral (n : Spelling) : Numeral := ⟨n.whole, n.fraction, n.exponent.value⟩

theorem begins (n : Spelling) : ∃ b tail, n.text = b :: tail ∧ isDigit b := by
  obtain ⟨whole, fraction, exponent, some, digits, proper⟩ := n
  cases whole with
  | nil => exact absurd rfl some
  | cons b whole => exact ⟨b, _, rfl, digits b List.mem_cons_self⟩

/-- What a number is cut off as: a token when its numeral is in range. -/
def piece (n : Spelling) : Piece :=
  match n.numeral.value? with
  | Option.some value => token (.number value) n.text
  | Option.none => rejected n.text [⟨0, .numberOutOfRange n.text⟩]

/-- The parts of a number are cut off one after the other. -/
theorem cut (n : Spelling) (clear : Clear rest) :
    (n.text ++ rest).takeWhile isDigit = n.whole ∧
      Piece.fraction ((n.text ++ rest).dropWhile isDigit) = (n.fraction, n.exponent.text ++ rest) ∧
      Piece.exponent (n.exponent.text ++ rest) = (n.exponent, rest) := by
  obtain ⟨whole, fraction, exponent, some, digits, proper⟩ := n
  have wholeDigits := (allDigits_append.1 digits).1
  have fractionDigits := (allDigits_append.1 digits).2
  have marked : ∀ b, (exponent.text ++ rest).head? = Option.some b → isDigit b = false ∧ b ≠ ascii '.' := by
    cases proper with
    | none => exact fun b found => ⟨clear.notDigit b found, (clear b found).2⟩
    | some =>
      rintro b ⟨⟩
      exact ⟨rfl, by decide⟩
  have source : text ⟨whole, fraction, exponent, some, digits, proper⟩ ++ rest =
      whole ++ ((if fraction = [] then [] else ascii '.' :: fraction) ++ (exponent.text ++ rest)) := by
    simp [text]
  have behind : Piece.fraction ((if fraction = [] then [] else ascii '.' :: fraction) ++ (exponent.text ++ rest)) =
      (fraction, exponent.text ++ rest) := by
    cases fraction with
    | nil => exact fraction_none fun b found => (marked b found).2
    | cons digit more => exact fraction_some fractionDigits fun b found => (marked b found).1
  have run := takeWhile_run whole ((if fraction = [] then [] else ascii '.' :: fraction) ++ (exponent.text ++ rest))
    wholeDigits fun b found => by
      cases fraction with
      | nil => exact (marked b found).1
      | cons digit more =>
        cases found
        rfl
  rw [source, run.1, run.2]
  exact ⟨rfl, behind, exponent_proper proper clear⟩

/-- A number is spelled in one way only. -/
theorem eq_of_text {n n' : Spelling} (same : n.text = n'.text) : n = n' := by
  obtain ⟨whole, fraction, exponent⟩ := n.cut Clear.nil
  obtain ⟨whole', fraction', exponent'⟩ := n'.cut Clear.nil
  rw [same] at whole fraction
  have parts := fraction.symm.trans fraction'
  have tail : n.exponent.text ++ [] = n'.exponent.text ++ [] := (Prod.mk.inj parts).2
  rw [tail] at exponent
  have exponents := (Prod.mk.inj (exponent.symm.trans exponent')).1
  have wholes := whole.symm.trans whole'
  have fractions := (Prod.mk.inj parts).1
  cases n
  cases n'
  cases wholes
  cases fractions
  cases exponents
  rfl

/-- The whole of a number is cut off. -/
theorem number_eq (n : Spelling) (clear : Clear rest) : number (n.text ++ rest) = (n.piece, rest) := by
  obtain ⟨whole, fraction, exponent⟩ := n.cut clear
  have sound := not_spoiled_iff.2 ⟨n.proper.valid, clear.notLetter⟩
  unfold number piece numeral
  rw [whole, fraction]
  dsimp only
  rw [exponent]
  dsimp only
  simp only [sound, Bool.false_eq_true, if_false]
  cases (Numeral.mk n.whole n.fraction n.exponent.value).value? <;> rfl

/-- A number that is in range is a token with the value of its numeral. -/
theorem number_text {n : Spelling} {value : Float} (reads : n.numeral.value? = Option.some value)
    (clear : Clear rest) : number (n.text ++ rest) = (token (.number value) n.text, rest) := by
  rw [n.number_eq clear, piece, reads]

end Spelling

end Piece

end TinyScript
