import TinyScript.Proofs.Token.Numerals
import TinyScript.Token.Source

namespace TinyScript

open Text

/-- A complete comment, before some other text. A comment of one line ends before the line break. -/
inductive Comment (behind : Text) : Text → Prop
  | line {t : Text} : newline ∉ t → (∀ b, behind.head? = some b → b = newline) →
      Comment behind (ascii '/' :: ascii '/' :: t)
  | block {t : Text} : ¬ [ascii '*', ascii '/'] <:+: t ++ [ascii '*'] →
      Comment behind (ascii '/' :: ascii '*' :: (t ++ [ascii '*', ascii '/']))

/-- What can stand between quotes, some lines below the opening one, and the complaints about its escapes. -/
inductive Unquoted : Nat → Text → List Complaint → Prop
  | nil {down : Nat} : Unquoted down [] []
  | byte {down : Nat} {b : Byte} {t : Text} {complaints : List Complaint} : b ≠ ascii '"' → b ≠ Quoted.backslash →
      Unquoted (down + breaks [b]) t complaints → Unquoted down (b :: t) complaints
  | escape {down : Nat} {letter meant : Byte} {t : Text} {complaints : List Complaint} :
      Quoted.meaning? letter = some meant → Unquoted (down + breaks [letter]) t complaints →
      Unquoted down (Quoted.backslash :: letter :: t) complaints
  | invalid {down : Nat} {letter : Byte} {t : Text} {complaints : List Complaint} :
      Quoted.meaning? letter = none → Unquoted (down + breaks [letter]) t complaints →
      Unquoted down (Quoted.backslash :: letter :: t) (⟨down, .invalidEscape letter⟩ :: complaints)

/-- An exponent of which the digits may be missing, or no exponent at all. -/
inductive Piece.Exponent.Begun : Piece.Exponent → Prop
  | none : Begun ⟨[], [], []⟩
  | some {mark : Byte} {sign digits : Text} : mark = ascii 'e' ∨ mark = ascii 'E' →
      sign = [] ∨ sign = [ascii '+'] ∨ sign = [ascii '-'] → AllDigits digits → Begun ⟨[mark], sign, digits⟩

/-- A number as far as it goes: digits, perhaps a fraction, perhaps an exponent. -/
structure NumberText where
  whole : Text
  fraction : Text
  exponent : Piece.Exponent
  some : whole ≠ []
  digits : AllDigits (whole ++ fraction)
  begun : exponent.Begun

namespace NumberText

def text (n : NumberText) : Text :=
  n.whole ++ (if n.fraction = [] then [] else ascii '.' :: n.fraction) ++ n.exponent.text

def numeral (n : NumberText) : Numeral := ⟨n.whole, n.fraction, n.exponent.value⟩

end NumberText

/-- A byte that begins nothing where it stands: neither a blank, nor a word, a number or a string, nor a mark. -/
structure Unexpected (b : Byte) (behind : Text) : Prop where
  notBlank : isBlank b = false
  notLetter : isLetter b = false
  notDigit : isDigit b = false
  notQuote : b ≠ ascii '"'
  noSingle : Token.singles.lookup b = none
  noDouble : ∀ c, behind.head? = some c → Token.doubles.lookup (b, c) = none

/-- A stretch that is rejected, before some other text, and the complaints about it. -/
inductive Rejected (behind : Text) : Text → List Complaint → Prop
  | unexpected {b : Byte} : Unexpected b behind → Rejected behind [b] [⟨0, .unexpected b⟩]
  /-- A number with a letter behind it, or with an exponent without digits, and the letters and digits behind it. -/
  | malformed {n : NumberText} {tail : Text} :
      n.exponent.valid = false ∨ (∃ b, tail.head? = some b ∧ isLetter b) → (∀ b ∈ tail, isWordByte b) →
      (∀ b, behind.head? = some b → isWordByte b = false) →
      Rejected behind (n.text ++ tail) [⟨0, .malformedNumber (n.text ++ tail)⟩]
  | outOfRange {n : NumberText} : n.exponent.valid → n.numeral.value? = none →
      Rejected behind n.text [⟨0, .numberOutOfRange n.text⟩]
  /-- A string with an invalid escape, from quote to quote. -/
  | invalid {t : Text} {complaints : List Complaint} : Unquoted 0 t complaints → complaints ≠ [] →
      Rejected behind (ascii '"' :: (t ++ [ascii '"'])) complaints
  /-- A string without its closing quote, up to the end of the source. It can end with a lone backslash. -/
  | openString {t last : Text} {complaints : List Complaint} : behind = [] → Unquoted 0 t complaints →
      last = [] ∨ last = [Quoted.backslash] →
      Rejected behind (ascii '"' :: (t ++ last)) (complaints ++ [⟨0, .unterminatedString⟩])
  /-- A block comment that does not end before the source does. -/
  | openComment {t : Text} : behind = [] → ¬ [ascii '*', ascii '/'] <:+: t →
      Rejected behind (ascii '/' :: ascii '*' :: t) [⟨0, .unterminatedComment⟩]

namespace Piece

/-- What a piece is, before some other text. -/
def Described (behind : Text) : Piece → Prop
  | blank text => (∃ b, isBlank b ∧ text = [b]) ∨ Comment behind text
  | token kind literal => kind ≠ .endOfInput ∧ literal ≠ []
  | rejected text complaints => Rejected behind text complaints

/-- The end of a comment is not where only its second byte could be. -/
theorem not_infix_cons {b : Byte} {t : Text} (source : Text)
    (other : ¬ (b = ascii '*' ∧ source.head? = some (ascii '/'))) (head : t.head? = source.head?)
    (none : ¬ [ascii '*', ascii '/'] <:+: t) : ¬ [ascii '*', ascii '/'] <:+: b :: t := by
  intro found
  rcases List.infix_cons_iff.1 found with ⟨rest, same⟩ | found
  · obtain ⟨rfl, rfl⟩ := List.cons.inj same
    exact other ⟨rfl, head.symm⟩
  · exact none found

theorem closeComment?_some {source inside behind : Text} (closed : closeComment? source = some (inside, behind)) :
    ∃ t, inside = t ++ [ascii '*', ascii '/'] ∧ ¬ [ascii '*', ascii '/'] <:+: t ++ [ascii '*'] := by
  fun_induction closeComment? source generalizing inside behind with
  | case1 => cases closed
  | case2 => cases closed
  | case3 b c rest ends =>
    cases closed
    obtain ⟨rfl, rfl⟩ := ends
    exact ⟨[], rfl, by decide⟩
  | case4 b c rest goesOn ih =>
    obtain ⟨⟨inner, rest'⟩, found, same⟩ := Option.map_eq_some_iff.1 closed
    cases same
    obtain ⟨t, rfl, none⟩ := ih found
    have whole := closeComment?_append found
    refine ⟨b :: t, rfl, not_infix_cons (c :: rest) (by simpa using goesOn) ?_ none⟩
    rw [← whole]
    cases t <;> rfl

theorem closeComment?_none {source : Text} (opened : closeComment? source = none) :
    ¬ [ascii '*', ascii '/'] <:+: source := by
  fun_induction closeComment? source with
  | case1 => decide
  | case2 b =>
    intro found
    have short := found.length_le
    simp at short
  | case3 => cases opened
  | case4 b c rest goesOn ih =>
    exact not_infix_cons (c :: rest) (by simpa using goesOn) rfl (ih (Option.map_eq_none_iff.1 opened))

theorem comment?_described {b c : Byte} {rest : Text} {found : Piece × Text}
    (comment : comment? b c rest = some found) : found.1.Described found.2 := by
  unfold comment? at comment
  split at comment
  · cases comment
  · next slash =>
    obtain rfl : b = ascii '/' := not_not.1 slash
    split at comment
    · next slash =>
      subst slash
      cases comment
      refine .inr (.line (fun mem => ?_) fun b begins => ?_)
      · have other := List.all_eq_true.1 List.all_takeWhile newline mem
        simp at other
      · simpa using head?_dropWhile rest b begins
    · split at comment
      · next star =>
        subst star
        split at comment
        · next inside behind closed =>
          cases comment
          obtain ⟨t, rfl, none⟩ := closeComment?_some closed
          exact .inr (.block none)
        · next opened =>
          cases comment
          exact .openComment rfl (closeComment?_none opened)
      · cases comment

/-- What is read behind an opening quote, up to the closing one or to the end of the source. -/
theorem stringBody_described (down : Nat) (source : Text) :
    (∃ t, (stringBody down source).taken = t ++ [ascii '"'] ∧ Unquoted down t (stringBody down source).complaints) ∨
      (stringBody down source).behind = [] ∧ ∃ t last complaints, (stringBody down source).taken = t ++ last ∧
        Unquoted down t complaints ∧ (last = [] ∨ last = [Quoted.backslash]) ∧
        (stringBody down source).complaints = complaints ++ [⟨0, .unterminatedString⟩] := by
  fun_induction stringBody down source with
  | case1 => exact .inr ⟨rfl, [], [], [], rfl, .nil, .inl rfl, rfl⟩
  | case2 => exact .inl ⟨[], rfl, .nil⟩
  | case3 => exact .inr ⟨rfl, [], [Quoted.backslash], [], rfl, .nil, .inr rfl, rfl⟩
  | case4 down letter rest body meant known _ ih =>
    rcases ih with ⟨t, taken, inside⟩ | ⟨ends, t, last, complaints, taken, inside, lone, same⟩
    · exact .inl ⟨_ :: letter :: t, by simp [body, taken], .escape known inside⟩
    · exact .inr ⟨ends, _ :: letter :: t, last, complaints, by simp [body, taken], .escape known inside, lone, same⟩
  | case5 down letter rest body unknown _ ih =>
    rcases ih with ⟨t, taken, inside⟩ | ⟨ends, t, last, complaints, taken, inside, lone, same⟩
    · exact .inl ⟨_ :: letter :: t, by simp [body, taken], .invalid unknown inside⟩
    · exact .inr ⟨ends, _ :: letter :: t, last, _ :: complaints, by simp [body, taken], .invalid unknown inside, lone,
        by simp [body, same]⟩
  | case6 down b rest noQuote noEscape body ih =>
    rcases ih with ⟨t, taken, inside⟩ | ⟨ends, t, last, complaints, taken, inside, lone, same⟩
    · exact .inl ⟨b :: t, by simp [body, taken], .byte noQuote noEscape inside⟩
    · exact .inr ⟨ends, b :: t, last, complaints, by simp [body, taken], .byte noQuote noEscape inside, lone, same⟩

theorem string_described (rest : Text) :
    (string (ascii '"') rest).1.Described (string (ascii '"') rest).2 := by
  unfold string
  dsimp only
  split
  · exact ⟨by simp, by simp⟩
  · next some =>
    rcases stringBody_described 0 rest with ⟨t, taken, inside⟩ | ⟨ends, t, last, complaints, taken, inside, lone, same⟩
    · rw [taken]
      exact .invalid inside some
    · rw [taken, same]
      exact .openString ends inside lone

theorem allDigits_takeWhile (source : Text) : AllDigits (source.takeWhile isDigit) :=
  List.all_eq_true.1 List.all_takeWhile

theorem fraction_digits (source : Text) : AllDigits (fraction source).1 := by
  unfold fraction
  split
  · split
    · next both =>
      intro b mem
      rcases List.mem_cons.1 mem with rfl | mem
      · exact both.2
      · exact allDigits_takeWhile _ b mem
    · simp [AllDigits]
  · simp [AllDigits]

theorem exponent_begun (source : Text) : (exponent source).1.Begun := by
  unfold exponent
  split
  · exact .none
  · split
    · next mark rest isMark =>
      refine .some isMark ?_ (allDigits_takeWhile _)
      cases rest with
      | nil => exact .inl rfl
      | cons b rest =>
        by_cases plus : b = ascii '+'
        · simp [plus]
        · by_cases minus : b = ascii '-' <;> simp [plus, minus]
    · exact .none

theorem head?_drop_takeWhile (p : Byte → Bool) (source : Text) :
    ∀ b, (source.drop (source.takeWhile p).length).head? = some b → p b = false := by
  have both : source.takeWhile p ++ source.drop (source.takeWhile p).length =
      source.takeWhile p ++ source.dropWhile p := by
    rw [take_takeWhile_append, List.takeWhile_append_dropWhile]
  rw [List.append_cancel_left both]
  exact head?_dropWhile source

/-- The number that a source begins with, as far as it goes. -/
def numberAhead (source : Text) (begins : source.takeWhile isDigit ≠ []) : NumberText where
  whole := source.takeWhile isDigit
  fraction := (fraction (source.dropWhile isDigit)).1
  exponent := (exponent (fraction (source.dropWhile isDigit)).2).1
  some := begins
  digits := allDigits_append.2 ⟨allDigits_takeWhile source, fraction_digits _⟩
  begun := exponent_begun _

/-- The source behind its number. -/
def behindNumber (source : Text) : Text := (exponent (fraction (source.dropWhile isDigit)).2).2

theorem malformed_described (n : NumberText) (behind : Text)
    (spoiled : (!n.exponent.valid || (behind.head?.map isLetter).getD false) = true) :
    Rejected (behind.drop (behind.takeWhile isWordByte).length) (n.text ++ behind.takeWhile isWordByte)
      [⟨0, .malformedNumber (n.text ++ behind.takeWhile isWordByte)⟩] := by
  refine Rejected.malformed ?_ (List.all_eq_true.1 List.all_takeWhile) (head?_drop_takeWhile _ _)
  rcases Bool.or_eq_true_iff.1 spoiled with invalid | letter
  · exact .inl (by simpa using invalid)
  · cases behind with
    | nil => cases letter
    | cons b rest =>
      have letter : isLetter b := letter
      exact .inr ⟨b, by simp [isWordByte, letter], letter⟩

theorem number_described {source : Text} (begins : source.takeWhile isDigit ≠ []) :
    (number source).1.Described (number source).2 := by
  unfold number
  dsimp only
  split
  · next spoiled =>
    exact malformed_described (numberAhead source begins) (behindNumber source) spoiled
  · next proper =>
    have proper : ¬ (!(numberAhead source begins).exponent.valid ||
      ((behindNumber source).head?.map isLetter).getD false) = true := proper
    obtain ⟨valid, _⟩ := not_spoiled_iff.1 (Bool.eq_false_iff.2 proper)
    split
    · exact ⟨by simp, by simp [begins]⟩
    · next none => exact Rejected.outOfRange (n := numberAhead source begins) valid none

theorem kind_of_table {α : Type} [BEq α] [LawfulBEq α] {table : List (α × Token.Kind)} {key : α} {kind : Token.Kind}
    (proper : ∀ p ∈ table, p.2 ≠ .endOfInput) (found : table.lookup key = some kind) : kind ≠ .endOfInput := by
  obtain ⟨before, behind, rfl, _⟩ := List.lookup_eq_some_iff.1 found
  exact proper (key, kind) (by simp)

theorem single?_described {b : Byte} {rest : Text} {found : Piece × Text} (single : single? b rest = some found) :
    found.1.Described found.2 := by
  obtain ⟨kind, entry, rfl⟩ := Option.map_eq_some_iff.1 single
  exact ⟨kind_of_table (by decide) entry, by simp⟩

theorem mark?_described {b : Byte} {rest : Text} {found : Piece × Text} (mark : mark? b rest = some found) :
    found.1.Described found.2 := by
  cases rest with
  | nil => exact single?_described mark
  | cons c rest =>
    rcases Option.or_eq_some_iff.1 mark with comment | ⟨_, mark⟩
    · exact comment?_described comment
    · rcases Option.or_eq_some_iff.1 mark with double | ⟨_, single⟩
      · obtain ⟨kind, entry, rfl⟩ := Option.map_eq_some_iff.1 double
        exact ⟨kind_of_table (by decide) entry, by simp⟩
      · exact single?_described single

/-- Where no mark is, neither table has an entry. -/
theorem lookup_of_mark?_eq_none {b : Byte} {rest : Text} (none : mark? b rest = none) :
    Token.singles.lookup b = Option.none ∧ ∀ c, rest.head? = some c → Token.doubles.lookup (b, c) = Option.none := by
  cases rest with
  | nil => exact ⟨Option.map_eq_none_iff.1 none, by simp⟩
  | cons c rest =>
    obtain ⟨-, none⟩ := Option.or_eq_none_iff.1 none
    obtain ⟨double, single⟩ := Option.or_eq_none_iff.1 none
    refine ⟨Option.map_eq_none_iff.1 single, fun _ same => ?_⟩
    cases same
    exact Option.map_eq_none_iff.1 double

theorem ofWord_ne_endOfInput (word : Text) : Token.Kind.ofWord word ≠ .endOfInput := by
  unfold Token.Kind.ofWord
  cases entry : Token.keywords.lookup word with
  | none => simp
  | some kind => exact kind_of_table (by decide) entry

/-- The first piece of a source is what it should be before the source behind it. -/
theorem first_described (b : Byte) (rest : Text) : (first b rest).1.Described (first b rest).2 := by
  unfold first
  split
  · next blank => exact .inl ⟨b, blank, rfl⟩
  · next notBlank =>
    split
    · next mark => exact mark?_described mark
    · next none =>
      split
      · next quote => exact quote ▸ string_described rest
      · next notQuote =>
        split
        · next letter => exact ⟨ofWord_ne_endOfInput _, by simp [isWordByte, letter]⟩
        · next notLetter =>
          split
          · next digit => exact number_described (by simp [digit])
          · next notDigit =>
            obtain ⟨noSingle, noDouble⟩ := lookup_of_mark?_eq_none none
            exact .unexpected ⟨by simpa using notBlank, by simpa using notLetter, by simpa using notDigit, notQuote,
              noSingle, noDouble⟩

end Piece

end TinyScript
