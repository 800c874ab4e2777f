import TinyScript.Proofs.Token.Phrases

namespace TinyScript

open Piece Exact

/-- A spelling that the kind of a token can have in a source. -/
def Token.Kind.Spelled (literal : Text) : Token.Kind → Prop
  | identifier => IsName literal
  | number value => Magnitude value
  | _ => True

/-- A token that can stand in a source. -/
def Token.Lexed (t : Token) : Prop := t.kind.Spelled t.literal

theorem Token.Lexed.name {t : Token} (lexed : t.Lexed) (kind : t.kind = .identifier) : IsName t.literal := by
  rwa [Lexed, kind] at lexed

theorem Token.Lexed.magnitude {t : Token} {value : Float} (lexed : t.Lexed) (kind : t.kind = .number value) :
    Magnitude value := by
  rwa [Lexed, kind] at lexed

/-- Numbers that are read are finite and have no sign. -/
theorem Numeral.magnitude_of_value? {n : Numeral} {d : Float} (reads : n.value? = some d) : Magnitude d := by
  unfold value? at reads
  split at reads
  · cases reads
    exact magnitude_ofMagnitude (by decide)
  · split at reads
    · cases reads
    · unfold ofQuotient? at reads
      dsimp only at reads
      split at reads
      · cases reads
      · next inRange =>
        cases reads
        have finite : ¬ infiniteBits ≤ nearestBits (n.digits * tenTo n.scale.toNat) (tenTo (-n.scale).toNat) :=
          fun le => inRange (by simp [le])
        exact magnitude_ofMagnitude (Nat.lt_of_not_le finite)

/-- A piece of a source, which is spelled like its kind if it is a token. -/
def Piece.Lexed : Piece → Prop
  | token kind literal => kind.Spelled literal
  | _ => True

namespace Piece

theorem spelled_singles (literal : Text) : ∀ p ∈ Token.singles, p.2.Spelled literal := by
  simp [Token.singles, Token.Kind.Spelled]

theorem spelled_doubles (literal : Text) : ∀ p ∈ Token.doubles, p.2.Spelled literal := by
  simp [Token.doubles, Token.Kind.Spelled]

theorem spelled_keywords (literal : Text) : ∀ p ∈ Token.keywords, p.2.Spelled literal := by
  simp [Token.keywords, Token.Kind.Spelled]

theorem mark?_lexed {b : Byte} {rest : Text} {found : Piece × Text} (h : mark? b rest = some found) :
    found.1.Lexed := by
  have single {rest : Text} (h : single? b rest = some found) : found.1.Lexed := by
    obtain ⟨kind, entry, rfl⟩ := Option.map_eq_some_iff.1 h
    exact spelled_singles _ _ (mem_of_lookup entry)
  cases rest with
  | nil => exact single h
  | cons c rest =>
    rcases Option.or_eq_some_iff.1 h with h | ⟨_, h⟩
    · unfold comment? at h
      repeat' split at h
      all_goals cases h
      all_goals trivial
    · rcases Option.or_eq_some_iff.1 h with h | ⟨_, h⟩
      · obtain ⟨kind, entry, rfl⟩ := Option.map_eq_some_iff.1 h
        exact spelled_doubles _ _ (mem_of_lookup entry)
      · exact single h

theorem word_lexed {b : Byte} (letter : isLetter b) (rest : Text) : (word (b :: rest)).1.Lexed := by
  show Token.Kind.Spelled _ (Token.Kind.ofWord ((b :: rest).takeWhile isWordByte))
  have isWord : IsWord ((b :: rest).takeWhile isWordByte) := by
    refine ⟨List.all_eq_true.1 List.all_takeWhile, b, ?_, letter⟩
    rw [List.takeWhile_cons_of_pos (by rw [isWordByte, letter, Bool.true_or]), List.head?_cons]
  cases entry : Token.keywords.lookup ((b :: rest).takeWhile isWordByte) with
  | none =>
    have name : Token.Kind.ofWord ((b :: rest).takeWhile isWordByte) = .identifier := by
      rw [Token.Kind.ofWord, entry]
      rfl
    rw [name]
    exact ⟨isWord, name⟩
  | some kind =>
    rw [Token.Kind.ofWord, entry]
    exact spelled_keywords _ _ (mem_of_lookup entry)

theorem number_lexed (source : Text) : (number source).1.Lexed := by
  unfold number
  dsimp only
  split
  · trivial
  · split
    · next reads => exact Numeral.magnitude_of_value? reads
    · trivial

theorem first_lexed (b : Byte) (rest : Text) : (first b rest).1.Lexed := by
  unfold first
  split
  · trivial
  · split
    · next h => exact mark?_lexed h
    · split
      · unfold Piece.string
        dsimp only
        split <;> trivial
      · split
        · next letter => exact word_lexed letter rest
        · split
          · exact number_lexed (b :: rest)
          · trivial

theorem split_lexed (source : Text) : ∀ p ∈ split source, p.Lexed := by
  fun_induction split source with
  | case1 => simp
  | case2 b rest _ ih =>
    intro p mem
    rcases List.mem_cons.1 mem with rfl | mem
    · exact first_lexed b rest
    · exact ih p mem

theorem tokens_lexed (here : Location) (pieces : List Piece) (lexed : ∀ p ∈ pieces, p.Lexed) :
    ∀ t ∈ tokens here pieces, t.Lexed := by
  induction pieces generalizing here with
  | nil => simp [tokens]
  | cons p pieces ih =>
    have rest := fun here => ih here fun q mem => lexed q (List.mem_cons_of_mem _ mem)
    cases p with
    | token kind literal =>
      intro t mem
      rcases List.mem_cons.1 mem with rfl | mem
      · exact lexed _ List.mem_cons_self
      · exact rest _ t mem
    | blank text => exact rest _
    | rejected text complaints => exact rest _

end Piece

/-- The tokens of a source are spelled like their kinds. -/
theorem Source.tokens_lexed (source : Text) : ∀ t ∈ (Source.ofText source).tokens, t.Lexed :=
  Piece.tokens_lexed .start _ (split_lexed source)

end TinyScript
