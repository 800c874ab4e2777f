import TinyScript.Proofs.Token.Phrases
import TinyScript.Proofs.Token.Pieces

namespace TinyScript

open Text

/-- The other text begins like this one for two bytes, unless it is blank or ends before. -/
def Looser (behind other : Text) : Prop :=
  ∀ b t, other = b :: t →
    isBlank b ∨ ∃ rest, behind = b :: rest ∧ ∀ c, t.head? = some c → isBlank c ∨ rest.head? = some c

namespace Looser

variable {behind other : Text}

theorem head? (looser : Looser behind other) : ∀ b, other.head? = some b → isBlank b ∨ behind.head? = some b := by
  intro b begins
  cases other with
  | nil => cases begins
  | cons c t =>
    cases begins
    refine (looser b t rfl).imp_right ?_
    rintro ⟨rest, rfl, _⟩
    rfl

/-- What holds of the first byte if there is one, and of blanks, holds of the first byte of a looser text. -/
theorem head_all {P : Byte → Prop} (looser : Looser behind other) (blank : ∀ b, isBlank b → P b)
    (all : ∀ b, behind.head? = some b → P b) : ∀ b, other.head? = some b → P b := by
  intro b begins
  rcases looser.head? b begins with isBlank | same
  · exact blank b isBlank
  · exact all b same

theorem append (looser : Looser behind other) (t : Text) : Looser (t ++ behind) (t ++ other) := by
  cases t with
  | nil => exact looser
  | cons b t =>
    rintro _ _ ⟨⟩
    refine .inr ⟨t ++ behind, rfl, fun c begins => ?_⟩
    cases t with
    | nil => exact looser.head? c begins
    | cons => exact .inr begins

end Looser

theorem notWord_of_isBlank {b : Byte} (blank : isBlank b) : isWordByte b = false := by
  cases word : isWordByte b with
  | false => rfl
  | true =>
    have visible := (notBlank_of_wordByte word).1
    rw [blank] at visible
    cases visible

theorem notDigit_of_isBlank {b : Byte} (blank : isBlank b) : isDigit b = false :=
  (Bool.or_eq_false_iff.1 (notWord_of_isBlank blank)).2

theorem notLetter_of_isBlank {b : Byte} (blank : isBlank b) : isLetter b = false :=
  (Bool.or_eq_false_iff.1 (notWord_of_isBlank blank)).1

namespace Piece

variable {source behind other : Text}

/-- A run before a looser text ends where it did. -/
theorem run_looser {p : Byte → Bool} (blank : ∀ b, isBlank b → p b = false)
    (looser : Looser (source.dropWhile p) other) :
    (source.takeWhile p ++ other).takeWhile p = source.takeWhile p ∧
      (source.takeWhile p ++ other).dropWhile p = other :=
  takeWhile_run _ _ (List.all_eq_true.1 List.all_takeWhile) (looser.head_all blank (head?_dropWhile source))

theorem word_looser {kind : Token.Kind} {literal : Text} (cut : word source = (token kind literal, behind))
    (looser : Looser behind other) : word (literal ++ other) = (token kind literal, other) := by
  cases cut
  have run := run_looser (fun _ => notWord_of_isBlank) looser
  rw [word, run.1, run.2]

/-- No fraction begins where a point is missing, or a digit behind it. -/
theorem fraction_eq_nil_iff :
    fraction source = ([], source) ↔ ∀ digit rest, source = ascii '.' :: digit :: rest → isDigit digit = false := by
  constructor
  · rintro none digit rest rfl
    by_contra isDigit
    rw [fraction, if_pos ⟨rfl, by simpa using isDigit⟩] at none
    cases none
  · intro none
    unfold fraction
    split
    · next point digit rest =>
      refine if_neg ?_
      rintro ⟨rfl, isDigit⟩
      rw [none digit rest rfl] at isDigit
      cases isDigit
    · rfl

theorem fraction_stops (some : (fraction source).1 ≠ []) :
    ∀ b, (fraction source).2.head? = Option.some b → isDigit b = false := by
  unfold fraction at some ⊢
  split at some
  · split at some
    · next both =>
      rw [if_pos both]
      exact head?_dropWhile _
    · exact absurd rfl some
  · exact absurd rfl some

theorem fraction_looser {found : Text} (cut : fraction source = (found, behind)) (looser : Looser behind other) :
    fraction ((if found = [] then [] else ascii '.' :: found) ++ other) = (found, other) := by
  have whole := fraction_append source
  have all := fraction_digits source
  have stops := @fraction_stops source
  rw [cut] at whole all stops
  dsimp only at whole all stops
  cases found with
  | nil =>
    obtain rfl : behind = source := whole
    refine fraction_eq_nil_iff.2 fun digit rest same => ?_
    rcases looser _ _ same with blank | ⟨others, begins, next⟩
    · cases blank
    · rcases next digit rfl with blank | next
      · exact notDigit_of_isBlank blank
      · obtain ⟨_, rfl⟩ := List.head?_eq_some_iff.1 next
        exact fraction_eq_nil_iff.1 cut digit _ begins
  | cons digit digits =>
    exact fraction_some all (looser.head_all (fun _ => notDigit_of_isBlank) (stops (List.cons_ne_nil _ _)))

theorem exponent_stops (some : (exponent source).1.mark ≠ []) :
    ∀ b, (exponent source).2.head? = Option.some b → isDigit b = false := by
  unfold exponent at some ⊢
  split at some
  · exact absurd rfl some
  · split at some
    · next isMark =>
      rw [if_pos isMark]
      exact head?_dropWhile _
    · exact absurd rfl some

theorem exponent_looser {e : Exponent} (cut : exponent source = (e, behind)) (valid : e.valid)
    (notLetter : ∀ b, behind.head? = some b → isLetter b = false) (looser : Looser behind other) :
    exponent (e.text ++ other) = (e, other) := by
  have begun := exponent_begun source
  have stops := @exponent_stops source
  rw [cut] at begun stops
  dsimp only at begun stops
  cases begun with
  | none => exact exponent_none (looser.head_all (fun _ => notLetter_of_isBlank) notLetter)
  | @some mark sign digits isMark signs all =>
    have some : digits ≠ [] := by simpa [Exponent.valid] using valid
    have source : Exponent.text ⟨[mark], sign, digits⟩ ++ other = mark :: (sign ++ (digits ++ other)) := by
      simp [Exponent.text]
    rw [source]
    exact exponent_some isMark signs some all
      (looser.head_all (fun _ => notDigit_of_isBlank) (stops (List.cons_ne_nil _ _)))

/-- A number that is a token is cut off before a looser text as before. -/
theorem number_looser {kind : Token.Kind} {literal : Text} (cut : number source = (token kind literal, behind))
    (looser : Looser behind other) : number (literal ++ other) = (token kind literal, other) := by
  unfold number at cut
  obtain ⟨f, rest, fractionCut⟩ : ∃ f rest, fraction (source.dropWhile isDigit) = (f, rest) := ⟨_, _, rfl⟩
  obtain ⟨e, last, exponentCut⟩ : ∃ e last, exponent rest = (e, last) := ⟨_, _, rfl⟩
  have behindWhole := fraction_append (source.dropWhile isDigit)
  have behindFraction := exponent_append rest
  rw [fractionCut] at cut behindWhole
  dsimp only at cut behindWhole
  rw [exponentCut] at cut behindFraction
  dsimp only at cut behindFraction
  split at cut
  · cases cut
  · next proper =>
    split at cut
    · next value reads =>
      cases cut
      obtain ⟨valid, notLetter⟩ := not_spoiled_iff.1 (Bool.eq_false_iff.2 proper)
      have looserLetter := looser.head_all (fun _ => notLetter_of_isBlank) notLetter
      have exponentCut := exponent_looser exponentCut valid notLetter looser
      have looser := looser.append e.text
      rw [behindFraction] at looser
      have fractionCut := fraction_looser fractionCut looser
      have looser := looser.append (if f = [] then [] else ascii '.' :: f)
      rw [behindWhole] at looser
      have run := run_looser (fun _ => notDigit_of_isBlank) looser
      rw [List.append_assoc, List.append_assoc, number, run.1, run.2, fractionCut]
      dsimp only
      rw [exponentCut]
      have sound := not_spoiled_iff.2 ⟨valid, looserLetter⟩
      simp only [sound, Bool.false_eq_true, if_false, reads]
    · cases cut

/-- A string without complaints ends where it does whatever stands behind it. -/
theorem stringBody_closed (down : Nat) (source other : Text) (closed : (stringBody down source).complaints = []) :
    stringBody down ((stringBody down source).taken ++ other) = { stringBody down source with behind := other } := by
  fun_induction stringBody down source with
  | case1 => cases closed
  | case2 =>
    rw [List.singleton_append, stringBody.eq_def]
    rfl
  | case3 => cases closed
  | case4 down letter rest body meant known noQuote ih =>
    have rest := ih closed
    show stringBody down (Quoted.backslash :: letter :: (body.taken ++ other)) = _
    rw [stringBody.eq_def]
    dsimp only
    rw [if_neg noQuote, if_pos rfl, known, rest]
  | case5 => cases closed
  | case6 down b rest noQuote noEscape body ih =>
    have rest := ih closed
    show stringBody down (b :: (body.taken ++ other)) = _
    rw [stringBody.eq_def]
    dsimp only
    rw [if_neg noQuote, if_neg noEscape, rest]

theorem string_closed {quote : Byte} {taken : Text} {kind : Token.Kind}
    (cut : string quote source = (token kind (quote :: taken), behind)) (other : Text) :
    string quote (taken ++ other) = (token kind (quote :: taken), other) := by
  unfold string at cut
  dsimp only at cut
  split at cut
  · next closed =>
    cases cut
    have body := stringBody_closed 0 source other closed
    rw [string, body]
    exact congrArg (·, other) (if_pos closed)
  · cases cut

/-- A comment is no token. -/
theorem comment?_ne_token {b c : Byte} {rest literal : Text} {kind : Token.Kind} :
    comment? b c rest ≠ some (token kind literal, behind) := by
  unfold comment?
  repeat' split
  all_goals simp

theorem noComment_of_comment? {b c : Byte} {rest : Text} (none : comment? b c rest = none) :
    b = ascii '/' → c ≠ ascii '/' ∧ c ≠ ascii '*' := by
  rintro rfl
  constructor
  · rintro rfl
    cases none
  · rintro rfl
    unfold comment? at none
    repeat' split at none
    all_goals simp_all

theorem mark?_token {b : Byte} {rest literal : Text} {kind : Token.Kind}
    (cut : mark? b rest = some (token kind literal, behind)) :
    (∃ c, Token.doubles.lookup (b, c) = some kind ∧ literal = [b, c] ∧ rest = c :: behind) ∨
      Token.singles.lookup b = some kind ∧ Alone b rest ∧ literal = [b] ∧ rest = behind := by
  have ofSingle {rest : Text} (single : single? b rest = some (token kind literal, behind)) :
      Token.singles.lookup b = some kind ∧ literal = [b] ∧ rest = behind := by
    obtain ⟨_, entry, same⟩ := Option.map_eq_some_iff.1 single
    cases same
    exact ⟨entry, rfl, rfl⟩
  cases rest with
  | nil =>
    obtain ⟨entry, spelled, ends⟩ := ofSingle cut
    exact .inr ⟨entry, (by rintro _ ⟨⟩), spelled, ends⟩
  | cons c rest =>
    rcases Option.or_eq_some_iff.1 cut with comment | ⟨noComment, mark⟩
    · exact absurd comment comment?_ne_token
    · rcases Option.or_eq_some_iff.1 mark with double | ⟨noDouble, single⟩
      · obtain ⟨_, entry, same⟩ := Option.map_eq_some_iff.1 double
        cases same
        exact .inl ⟨c, entry, rfl, rfl⟩
      · obtain ⟨entry, spelled, ends⟩ := ofSingle single
        refine .inr ⟨entry, ?_, spelled, ends⟩
        rintro _ ⟨⟩
        exact ⟨Option.map_eq_none_iff.1 noDouble, noComment_of_comment? noComment⟩

/-- A mark that stands alone does so before a blank as well. -/
theorem alone_looser {b : Byte} (alone : Alone b behind) (looser : Looser behind other) : Alone b other := by
  refine looser.head_all (fun c blank => ?_) alone
  have seconds : ∀ p ∈ Token.doubles, isBlank p.1.2 = false := by decide
  have apart {d : Byte} (visible : isBlank d = false) : c ≠ d := by
    rintro rfl
    rw [blank] at visible
    cases visible
  refine ⟨lookup_doubles fun p mem same => ?_, fun _ => ⟨apart rfl, apart rfl⟩⟩
  exact apart (seconds p mem) (congrArg Prod.snd same).symm

theorem mark?_looser {b : Byte} {more : Text} {kind : Token.Kind}
    (cut : mark? b (more ++ behind) = some (token kind (b :: more), behind)) (looser : Looser behind other) :
    mark? b (more ++ other) = some (token kind (b :: more), other) := by
  rcases mark?_token cut with ⟨c, entry, spelled, _⟩ | ⟨entry, alone, spelled, ends⟩
  · cases spelled
    exact mark?_double entry
  · cases spelled
    exact mark?_single entry (alone_looser alone looser)

/-- The first piece begins where the source begins. -/
theorem first_begins (b : Byte) (rest : Text) :
    ∃ more, (first b rest).1.text = b :: more ∧ rest = more ++ (first b rest).2 := by
  have whole := first_append b rest
  obtain ⟨c, more, begins⟩ := List.exists_cons_of_ne_nil (first_text_ne_nil b rest)
  rw [begins] at whole
  obtain ⟨rfl, same⟩ := List.cons.inj whole
  exact ⟨more, begins, same.symm⟩

/-- The first token of a source is cut off before a looser text as before. -/
theorem first_looser {b : Byte} {more : Text} {kind : Token.Kind}
    (cut : first b (more ++ behind) = (token kind (b :: more), behind)) (looser : Looser behind other) :
    first b (more ++ other) = (token kind (b :: more), other) := by
  unfold first at cut
  split at cut
  · cases cut
  · next visible =>
    split at cut
    · next mark =>
      rw [cut] at mark
      rw [first, if_neg visible, mark?_looser mark looser]
    · split at cut
      · next quote =>
        subst quote
        rw [first_string]
        exact string_closed cut other
      · split at cut
        · next letter =>
          rw [first_word letter]
          have again := word_looser cut looser
          exact again
        · split at cut
          · next digit =>
            rw [first_number digit]
            have again := number_looser cut looser
            exact again
          · cases cut

end Piece

end TinyScript
