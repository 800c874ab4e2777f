import TinyScript.Proofs.Guise.Places
import TinyScript.Proofs.Token.Veil

namespace TinyScript

open Piece Text

/-- Blanks, complete block comments, and comments of one line with the line break behind them. -/
inductive Spacing : Text → Prop
  | nil : Spacing []
  | blank {b : Byte} {t : Text} : isBlank b → Spacing t → Spacing (b :: t)
  | line {c t : Text} : newline ∉ c → Spacing t → Spacing (ascii '/' :: ascii '/' :: (c ++ newline :: t))
  | block {c t : Text} : ¬ [ascii '*', ascii '/'] <:+: c ++ [ascii '*'] → Spacing t →
      Spacing (ascii '/' :: ascii '*' :: (c ++ ascii '*' :: ascii '/' :: t))

/-- What may stand between two tokens whatever they are. A comment alone would not do, since the slash that it begins
with could become part of the token before it. -/
structure Separator (t : Text) : Prop where
  begins : ∃ b, t.head? = some b ∧ isBlank b
  spacing : Spacing t

/-- The spellings of some tokens with a separator between each two of them. -/
inductive Spaced : List Token → Text → Prop
  | nil : Spaced [] []
  | one {t : Token} : Spaced [t] t.literal
  | cons {t next : Token} {tokens : List Token} {separator text : Text} : Separator separator →
      Spaced (next :: tokens) text → Spaced (t :: next :: tokens) (t.literal ++ (separator ++ text))

namespace Phrase

variable {a b rest : Text} {P : List Token → Prop}

/-- A text that is passed over as a whole. -/
theorem of_blank {x : Byte} {more : Text} (cut : first x (more ++ rest) = (.blank (x :: more), rest)) :
    Phrase (x :: more) Nothing rest := by
  refine ⟨[.blank (x :: more)], ?_, fun p mem => ?_, fun _ => rfl⟩
  · show split (x :: (more ++ rest)) = _
    rw [split_cons, cut]
    rfl
  · cases List.mem_singleton.1 mem
    exact fun _ => rfl

/-- What is passed over does not matter to the phrase behind it. -/
theorem passing (passed : Phrase a Nothing (b ++ rest)) (phrase : Phrase b P rest) : Phrase (a ++ b) P rest := by
  refine (passed.append phrase).mono ?_
  rintro _ ⟨_, xs, rfl, rfl, all⟩
  exact all

end Phrase

/-- A block comment ends where it is closed first. -/
theorem Piece.closeComment?_of_not_infix {c : Text} (open_ : ¬ [ascii '*', ascii '/'] <:+: c ++ [ascii '*'])
    (t : Text) :
    closeComment? (c ++ ascii '*' :: ascii '/' :: t) = some (c ++ [ascii '*', ascii '/'], t) := by
  induction c with
  | nil => exact if_pos ⟨rfl, rfl⟩
  | cons b c ih =>
    have later := ih fun found => open_ (found.trans (List.suffix_cons b _).isInfix)
    obtain ⟨d, rest, same⟩ : ∃ d rest, c ++ ascii '*' :: ascii '/' :: t = d :: rest := by cases c <;> simp
    have goesOn : ¬ (b = ascii '*' ∧ d = ascii '/') := by
      rintro ⟨rfl, rfl⟩
      cases c with
      | nil => cases same
      | cons d c =>
        obtain rfl := (List.cons.inj same).1
        exact open_ (List.prefix_append [ascii '*', ascii '/'] (c ++ [ascii '*'])).isInfix
    rw [same] at later
    rw [List.cons_append, same, closeComment?, if_neg goesOn, later]
    rfl

namespace Piece

variable {b c : Byte} {t rest : Text}

theorem comment?_line (inside : newline ∉ t) : comment? (ascii '/') (ascii '/') (t ++ newline :: rest) =
    some (blank (ascii '/' :: ascii '/' :: t), newline :: rest) := by
  have run := takeWhile_run (p := (· ≠ newline)) t (newline :: rest)
    (fun b mem => by simpa using fun same : b = newline => inside (same ▸ mem)) (by simp)
  rw [comment?, if_neg (by decide), if_pos rfl, run.1, run.2]

theorem comment?_block (open_ : ¬ [ascii '*', ascii '/'] <:+: t ++ [ascii '*']) :
    comment? (ascii '/') (ascii '*') (t ++ ascii '*' :: ascii '/' :: rest) =
      some (blank (ascii '/' :: ascii '*' :: (t ++ [ascii '*', ascii '/'])), rest) := by
  rw [comment?, if_neg (by decide), if_neg (by decide), if_pos rfl, closeComment?_of_not_infix open_]

/-- Comments win over operators. -/
theorem first_of_comment? {found : Piece × Text} (visible : isBlank b = false)
    (comment : comment? b c rest = some found) : first b (c :: rest) = found := by
  rw [first, visible, mark?, comment]
  rfl

end Piece

/-- No spacing is part of a token. -/
theorem Spacing.phrase {sep : Text} (spacing : Spacing sep) (rest : Text) : Phrase sep Nothing rest := by
  induction spacing with
  | nil => exact .nil
  | @blank b t blank _ ih =>
    have one : Phrase [b] Nothing (t ++ rest) := .of_blank (if_pos blank)
    exact one.passing ih
  | @line c t inside _ ih =>
    have comment : Phrase (ascii '/' :: ascii '/' :: c) Nothing (newline :: t ++ rest) :=
      .of_blank (first_of_comment? rfl (comment?_line inside))
    have lineBreak : Phrase [newline] Nothing (t ++ rest) := .of_blank (if_pos rfl)
    exact comment.passing (lineBreak.passing ih)
  | @block c t open_ _ ih =>
    have cut : first (ascii '/') (ascii '*' :: (c ++ [ascii '*', ascii '/'] ++ (t ++ rest))) = _ :=
      first_of_comment? rfl (by rw [List.append_assoc]; exact comment?_block open_)
    have comment : Phrase (ascii '/' :: ascii '*' :: (c ++ [ascii '*', ascii '/'])) Nothing (t ++ rest) :=
      .of_blank cut
    simpa using comment.passing ih

/-- The spelling of the token is read as that token at the end of a source and before every blank. -/
def Token.Complete (t : Token) : Prop :=
  ∀ rest : Text, (∀ b, rest.head? = some b → isBlank b) → Phrase t.literal (One t.kind t.literal) rest

/-- A token that is cut off from some source is cut off alike before a blank. -/
theorem Piece.phrase_of_mem_split (source : Text) {kind : Token.Kind} {literal : Text}
    (mem : token kind literal ∈ split source) {rest : Text} (blank : ∀ b, rest.head? = some b → isBlank b) :
    Phrase literal (One kind literal) rest := by
  fun_induction split source with
  | case1 => cases mem
  | case2 b source _ ih =>
    rcases List.mem_cons.1 mem with same | mem
    · obtain ⟨more, begins, whole⟩ := first_begins b source
      generalize found : first b source = cut at *
      obtain ⟨_, behind⟩ := cut
      subst same whole
      obtain rfl : literal = b :: more := begins
      have looser : Looser behind rest := fun c t begins => .inl (blank c (by rw [begins]; rfl))
      exact .of_first (first_looser found looser)
    · exact ih mem

theorem Piece.mem_of_mem_tokens {t : Token} {here : Location} {pieces : List Piece} (mem : t ∈ tokens here pieces) :
    token t.kind t.literal ∈ pieces := by
  fun_induction tokens here pieces with
  | case1 => cases mem
  | case2 here kind literal more ih =>
    rcases List.mem_cons.1 mem with rfl | mem
    · exact List.mem_cons_self
    · exact List.mem_cons_of_mem _ (ih mem)
  | case3 here piece more _ ih => exact List.mem_cons_of_mem _ (ih mem)

/-- Each token of a source is complete in itself. -/
theorem Source.complete (source : Text) : ∀ t ∈ (ofText source).tokens, t.Complete :=
  fun _ mem _ blank => Piece.phrase_of_mem_split source (Piece.mem_of_mem_tokens mem) blank

/-- Tokens that are set apart are read one after the other. -/
theorem Spaced.phrase {tokens : List Token} {text : Text} (spaced : Spaced tokens text)
    (complete : ∀ t ∈ tokens, t.Complete) :
    Phrase text (List.Forall₂ (fun t t' => t'.kind = t.kind ∧ t'.literal = t.literal) tokens) [] := by
  induction spaced with
  | nil => exact Phrase.nil.mono fun xs none => by rw [show xs = [] from none]; exact .nil
  | @one t =>
    refine (complete t List.mem_cons_self [] (by simp)).mono ?_
    rintro _ ⟨t', rfl, same⟩
    exact .cons same .nil
  | @cons t next tokens separator text apart _ ih =>
    have others := ih fun u mem => complete u (List.mem_cons_of_mem t mem)
    have between := (apart.spacing.phrase (text ++ [])).passing others
    obtain ⟨c, begins, blank⟩ := apart.begins
    obtain ⟨after, rfl⟩ := List.head?_eq_some_iff.1 begins
    have first := complete t List.mem_cons_self (c :: after ++ text ++ []) fun b head => by
      cases head
      exact blank
    refine (first.append between).mono ?_
    rintro _ ⟨_, xs, rfl, ⟨t', rfl, same⟩, rest⟩
    exact .cons same rest

/-- Where the tokens of a source are set apart by blanks and comments, they are read again as the same tokens, and
nothing is rejected. -/
theorem Source.ofText_spaced (source text : Text) (spaced : Spaced (ofText source).tokens text) :
    (ofText source).SameTokens (ofText text) ∧ (ofText text).diagnostics = [] := by
  obtain ⟨diagnostics, same⟩ := (spaced.phrase (complete source)).source
  exact ⟨List.rel_append same (.cons ⟨rfl, rfl⟩ .nil), diagnostics⟩

/-- Tokens close to each other, with a stretch between them that is rejected. -/
def crowded : Text := "a.1.5==/**/=$/and"

/-- The same tokens with separators of every sort. Two slashes in a row would be a comment. -/
def loosened : Text := "a\t. 1.5\n== /*=*/= //$\n/\n/***/ and"

theorem Source.ofText_spaced_crowded : Spaced (ofText crowded).tokens loosened ∧
    (ofText crowded).diagnostics ≠ [] ∧ (ofText crowded).SameTokens (ofText loosened) ∧
    (ofText loosened).diagnostics = [] := by
  have tokens : (ofText crowded).tokens = [⟨.identifier, "a", ⟨1, 1⟩⟩, ⟨.dot, ".", ⟨1, 2⟩⟩,
      ⟨.number 1.5, "1.5", ⟨1, 3⟩⟩, ⟨.equal, "==", ⟨1, 6⟩⟩, ⟨.assign, "=", ⟨1, 12⟩⟩, ⟨.slash, "/", ⟨1, 14⟩⟩,
      ⟨.logicalAnd, "and", ⟨1, 15⟩⟩] := by decide +kernel
  have blank (b : Byte) (isBlank : isBlank b) : Separator [b] := ⟨⟨b, rfl, isBlank⟩, .blank isBlank .nil⟩
  have block : Separator (" /*=*/" : Text) :=
    ⟨⟨_, rfl, rfl⟩, .blank rfl (.block (c := "=") (by decide) .nil)⟩
  have line : Separator (" //$\n" : Text) :=
    ⟨⟨_, rfl, rfl⟩, .blank rfl (.line (c := "$") (by decide) .nil)⟩
  have between : Separator ("\n/***/ " : Text) :=
    ⟨⟨_, rfl, rfl⟩, .blank rfl (.block (c := "*") (by decide) (.blank rfl .nil))⟩
  have spaced : Spaced (ofText crowded).tokens loosened := by
    rw [tokens]
    refine .cons (blank (ascii '\t') rfl) (.cons (blank (ascii ' ') rfl) (.cons (blank newline rfl) ?_))
    exact .cons block (.cons line (.cons between .one))
  exact ⟨spaced, by decide +kernel, ofText_spaced crowded loosened spaced⟩

end TinyScript
