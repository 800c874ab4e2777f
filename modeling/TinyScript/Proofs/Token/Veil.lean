import TinyScript.Proofs.Token.Looser

namespace TinyScript

open Text

/-- A piece with a space for each byte if it is rejected. Line breaks stay. -/
def Piece.veiled : Piece → Text
  | rejected text _ => text.map fun b => if b = newline then newline else ascii ' '
  | piece => piece.text

/-- A source with spaces for what is rejected. -/
def Source.veil (source : Text) : Text := (Piece.split source).flatMap Piece.veiled

/-- The same text, but for some bytes that are spaces in it. -/
def Veils : Text → Text → Prop := List.Forall₂ fun b c => c = b ∨ b ≠ newline ∧ c = ascii ' '

namespace Veils

variable {a b c d : Text}

theorem refl (a : Text) : Veils a a := List.forall₂_same.2 fun _ _ => .inl rfl

theorem append (first : Veils a b) (second : Veils c d) : Veils (a ++ c) (b ++ d) := List.rel_append first second

theorem looser (veils : Veils a b) : Looser a b := by
  cases veils with
  | nil => rintro _ _ ⟨⟩
  | @cons x y a b same veils =>
    rintro _ _ ⟨⟩
    rcases same with rfl | ⟨_, rfl⟩
    · refine .inr ⟨a, rfl, fun z begins => ?_⟩
      cases veils with
      | nil => cases begins
      | cons same _ =>
        cases begins
        rcases same with rfl | ⟨_, rfl⟩
        · exact .inr rfl
        · exact .inl rfl
    · exact .inl rfl

/-- Places behind it are the same. -/
theorem after (veils : Veils a b) (here : Location) : here.after b = here.after a := by
  induction veils generalizing here with
  | nil => rfl
  | @cons x y _ _ same _ ih =>
    have next : here.next y = here.next x := by
      rcases same with rfl | ⟨other, rfl⟩
      · rfl
      · rw [Location.next, Location.next, if_neg other, if_neg (by decide)]
    exact (ih _).trans (congrArg (Location.after · _) next)

/-- It ends, or begins with a line break, where the text does. -/
theorem ends (veils : Veils a b) (ends : ∀ x, a.head? = some x → x = newline) :
    ∀ x, b.head? = some x → x = newline := by
  cases veils with
  | nil => exact ends
  | cons same _ =>
    rintro _ ⟨⟩
    have isNewline := ends _ rfl
    rcases same with rfl | ⟨other, _⟩
    · exact isNewline
    · exact absurd isNewline other

end Veils

namespace Piece

theorem veils_veiled (piece : Piece) : Veils piece.text piece.veiled := by
  cases piece with
  | blank text => exact .refl text
  | token kind literal => exact .refl literal
  | rejected text complaints =>
    refine List.forall₂_map_right_iff.2 (List.forall₂_same.2 fun b _ => ?_)
    by_cases isNewline : b = newline
    · exact .inl ((if_pos isNewline).trans isNewline.symm)
    · exact .inr ⟨isNewline, if_neg isNewline⟩

theorem veils_flatMap (pieces : List Piece) : Veils (pieces.flatMap text) (pieces.flatMap veiled) := by
  induction pieces with
  | nil => exact .nil
  | cons piece pieces ih => exact piece.veils_veiled.append ih

theorem closeComment?_other {source inside behind : Text} (closed : closeComment? source = some (inside, behind))
    (other : Text) : closeComment? (inside ++ other) = some (inside, other) := by
  fun_induction closeComment? source generalizing inside behind with
  | case1 => cases closed
  | case2 => cases closed
  | case3 b c rest ends =>
    cases closed
    exact if_pos ends
  | case4 b c rest goesOn ih =>
    obtain ⟨⟨inner, rest'⟩, found, same⟩ := Option.map_eq_some_iff.1 closed
    cases same
    have whole := closeComment?_append found
    obtain ⟨t, closes, _⟩ := closeComment?_some found
    obtain ⟨d, inner, rfl⟩ := List.exists_cons_of_ne_nil (show inner ≠ [] by simp [closes])
    obtain ⟨rfl, _⟩ := List.cons.inj whole
    have further := ih found
    show closeComment? (b :: d :: (inner ++ other)) = _
    rw [closeComment?, if_neg goesOn]
    exact congrArg (Option.map _) further

theorem comment?_veiled {b c : Byte} {rest text behind other : Text}
    (cut : comment? b c rest = some (blank text, behind)) (veils : Veils behind other) :
    ∃ t, text = b :: c :: t ∧ comment? b c (t ++ other) = some (blank text, other) := by
  unfold comment? at cut
  split at cut
  · cases cut
  · next isSlash =>
    split at cut
    · next slash =>
      cases cut
      have stops := veils.ends fun x begins => by simpa using head?_dropWhile rest x begins
      have run := takeWhile_run (p := (· ≠ newline)) (rest.takeWhile (· ≠ newline)) other
        (List.all_eq_true.1 List.all_takeWhile) fun x begins => by simpa using stops x begins
      refine ⟨_, rfl, ?_⟩
      rw [comment?, if_neg isSlash, if_pos slash, run.1, run.2]
    · next noSlash =>
      split at cut
      · next star =>
        split at cut
        · next inside behind closed =>
          cases cut
          refine ⟨_, rfl, ?_⟩
          rw [comment?, if_neg isSlash, if_neg noSlash, if_pos star, closeComment?_other closed other]
        · cases cut
      · cases cut

/-- Nothing else than a comment is a blank mark. -/
theorem mark?_blank {b : Byte} {rest text behind : Text} (cut : mark? b rest = some (blank text, behind)) :
    ∃ c after, rest = c :: after ∧ comment? b c after = some (blank text, behind) := by
  cases rest with
  | nil =>
    obtain ⟨_, _, same⟩ := Option.map_eq_some_iff.1 cut
    cases same
  | cons c rest =>
    rcases Option.or_eq_some_iff.1 cut with comment | ⟨_, mark⟩
    · exact ⟨c, rest, rfl, comment⟩
    · rcases Option.or_eq_some_iff.1 mark with mark | ⟨_, mark⟩
      all_goals
        obtain ⟨_, _, same⟩ := Option.map_eq_some_iff.1 mark
        cases same

theorem number_ne_blank (source text behind : Text) : number source ≠ (blank text, behind) := by
  unfold number
  dsimp only
  split
  · simp
  · split <;> simp

theorem string_ne_blank (quote : Byte) (source text behind : Text) : string quote source ≠ (blank text, behind) := by
  unfold string
  dsimp only
  split <;> simp

/-- A blank or a comment is cut off before a veiled text as before. -/
theorem first_veiled {b : Byte} {more behind other : Text}
    (cut : first b (more ++ behind) = (blank (b :: more), behind)) (veils : Veils behind other) :
    first b (more ++ other) = (blank (b :: more), other) := by
  unfold first at cut
  split at cut
  · next isBlank =>
    cases cut
    exact if_pos isBlank
  · next visible =>
    split at cut
    · next mark =>
      rw [cut] at mark
      obtain ⟨c, _, _, comment⟩ := mark?_blank mark
      obtain ⟨t, spelled, again⟩ := comment?_veiled comment veils
      cases spelled
      rw [first, if_neg visible, List.cons_append, mark?, again]
      rfl
    · split at cut
      · exact absurd cut (string_ne_blank _ _ _ _)
      · split at cut
        · cases cut
        · split at cut
          · exact absurd cut (number_ne_blank _ _ _)
          · cases cut

/-- A piece that is not rejected is cut off before a veiled text as before. -/
theorem split_veiled {b : Byte} {rest other : Text} (kept : ∀ t complaints, (first b rest).1 ≠ rejected t complaints)
    (veils : Veils (first b rest).2 other) :
    split ((first b rest).1.text ++ other) = (first b rest).1 :: split other := by
  obtain ⟨more, begins, same⟩ := first_begins b rest
  generalize found : first b rest = cut at *
  obtain ⟨piece, behind⟩ := cut
  subst same
  have again : first b (more ++ other) = (piece, other) := by
    cases piece with
    | token kind literal =>
      cases begins
      exact first_looser found veils.looser
    | blank text =>
      cases begins
      exact first_veiled found veils
    | rejected text complaints => exact absurd rfl (kept text complaints)
  rw [begins, List.cons_append, split_cons, again]

theorem blank_of_veiled (text : Text) (complaints : List Complaint) :
    ∀ b ∈ (rejected text complaints).veiled, isBlank b := by
  intro b mem
  obtain ⟨c, _, rfl⟩ := List.mem_map.1 mem
  split <;> rfl

/-- Blanks are passed over. -/
theorem split_blanks {bs : Text} (blanks : ∀ b ∈ bs, isBlank b) (source : Text) (here : Location) :
    tokens here (split (bs ++ source)) = tokens (here.after bs) (split source) ∧
      allDiagnostics here (split (bs ++ source)) = allDiagnostics (here.after bs) (split source) := by
  induction bs generalizing here with
  | nil => exact ⟨rfl, rfl⟩
  | cons b bs ih =>
    have isBlank := blanks b List.mem_cons_self
    have cut : split (b :: (bs ++ source)) = blank [b] :: split (bs ++ source) := by
      rw [split_cons, first, if_pos isBlank]
    rw [List.cons_append, cut]
    exact ih (fun c mem => blanks c (List.mem_cons_of_mem _ mem)) (here.next b)

/-- The veiled source has the tokens of the source, and nothing in it is rejected. -/
theorem split_veil (source : Text) (here : Location) :
    tokens here (split (Source.veil source)) = tokens here (split source) ∧
      allDiagnostics here (split (Source.veil source)) = [] := by
  unfold Source.veil
  fun_induction split source generalizing here with
  | case1 => simp [split, tokens, allDiagnostics]
  | case2 b rest _ ih =>
    have veils := veils_flatMap (split (first b rest).2)
    rw [flatten_split] at veils
    have kept := fun kept => split_veiled kept veils
    have after := (first b rest).1.veils_veiled.after here
    rw [List.flatMap_cons]
    generalize (first b rest).1 = piece at *
    cases piece with
    | token kind literal =>
      obtain ⟨sameTokens, none⟩ := ih (here.after literal)
      have cut : split ((token kind literal).veiled ++ _) = _ := kept (by simp)
      rw [cut]
      exact ⟨congrArg (_ :: ·) sameTokens, none⟩
    | blank text =>
      obtain ⟨sameTokens, none⟩ := ih (here.after text)
      have cut : split ((blank text).veiled ++ _) = _ := kept (by simp)
      rw [cut]
      exact ⟨sameTokens, none⟩
    | rejected text complaints =>
      obtain ⟨sameTokens, sameDiagnostics⟩ := split_blanks (blank_of_veiled text complaints)
        ((split (first b rest).2).flatMap veiled) here
      rw [after] at sameTokens sameDiagnostics
      rw [sameTokens, sameDiagnostics]
      exact ih _

/-- What is rejected is rejected for one of the known reasons. -/
theorem rejected_of_split (source : Text) : ∀ text complaints, rejected text complaints ∈ split source →
    ∃ behind, text ++ behind <:+ source ∧ Rejected behind text complaints := by
  fun_induction split source with
  | case1 => simp
  | case2 b rest _ ih =>
    have described := first_described b rest
    have whole := first_append b rest
    intro text complaints mem
    rcases List.mem_cons.1 mem with same | mem
    · rw [← same] at described whole
      exact ⟨_, whole ▸ List.suffix_rfl, described⟩
    · obtain ⟨behind, suffix, reason⟩ := ih text complaints mem
      exact ⟨behind, whole ▸ suffix.trans (List.suffix_append _ _), reason⟩

end Piece

namespace Source

/-- What is rejected is isolated: with spaces in its place, but for its line breaks, the source has the same tokens,
and nothing in it is rejected. -/
theorem ofText_veil (source : Text) : ofText (veil source) = { ofText source with diagnostics := [] } ∧
    ∀ text complaints, Piece.rejected text complaints ∈ Piece.split source →
      ∃ behind, text ++ behind <:+ source ∧ Rejected behind text complaints := by
  have veils := Piece.veils_flatMap (Piece.split source)
  rw [Piece.flatten_split] at veils
  obtain ⟨sameTokens, none⟩ := Piece.split_veil source .start
  refine ⟨?_, Piece.rejected_of_split source⟩
  have finish : Location.start.after (veil source) = Location.start.after source := veils.after .start
  rw [ofText, sameTokens, none, finish]
  rfl

end Source

end TinyScript
