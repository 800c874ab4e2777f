import TinyScript.Token.Piece

namespace TinyScript

namespace Piece

theorem closeComment?_append {source inside behind : Text}
    (h : closeComment? source = some (inside, behind)) : inside ++ behind = source := by
  fun_induction closeComment? source generalizing inside behind with
  | case1 => cases h
  | case2 => cases h
  | case3 b c rest close => cases h; rfl
  | case4 b c rest _ ih =>
    obtain ⟨⟨i, k⟩, found, eq⟩ := Option.map_eq_some_iff.1 h
    cases eq
    simp [ih found]

theorem stringBody_append (down : Nat) (source : Text) :
    (stringBody down source).taken ++ (stringBody down source).behind = source := by
  fun_induction stringBody down source <;> simp_all +zetaDelta

theorem fraction_append (source : Text) :
    (if (fraction source).1 = [] then [] else ascii '.' :: (fraction source).1) ++ (fraction source).2 =
      source := by
  unfold fraction
  split
  · split
    · next h => simp [h.1]
    · rfl
  · rfl

theorem exponent_append (source : Text) : (exponent source).1.text ++ (exponent source).2 = source := by
  unfold exponent
  split
  · rfl
  · split
    · next mark rest _ =>
      simp only [Exponent.text, List.append_assoc, List.takeWhile_append_dropWhile]
      cases rest with
      | nil => rfl
      | cons b rest => by_cases h : (b = ascii '+' || b = ascii '-') = true <;> simp_all
    · rfl

theorem take_takeWhile_append (p : Byte → Bool) (source : Text) :
    source.takeWhile p ++ source.drop (source.takeWhile p).length = source := by
  induction source with
  | nil => rfl
  | cons b rest ih => by_cases h : p b <;> simp [h, ih]

theorem number_append (source : Text) : (number source).1.text ++ (number source).2 = source := by
  have whole := List.takeWhile_append_dropWhile (p := isDigit) (l := source)
  have frac := fraction_append (source.dropWhile isDigit)
  have expo := exponent_append (fraction (source.dropWhile isDigit)).2
  have tail := take_takeWhile_append isWordByte (exponent (fraction (source.dropWhile isDigit)).2).2
  unfold number
  dsimp only
  split
  · simp only [text, List.append_assoc]
    rw [tail, expo, frac, whole]
  · split <;> simp only [text, List.append_assoc] <;> rw [expo, frac, whole]

theorem string_append (quote : Byte) (rest : Text) :
    (string quote rest).1.text ++ (string quote rest).2 = quote :: rest := by
  have body := stringBody_append 0 rest
  unfold string
  dsimp only
  split <;> simp [text, body]

theorem comment?_append {b c : Byte} {rest : Text} {found : Piece × Text}
    (h : comment? b c rest = some found) : found.1.text ++ found.2 = b :: c :: rest := by
  unfold comment? at h
  split at h
  · cases h
  · split at h
    · cases h; simp [text]
    · split at h
      · split at h
        · next closed => cases h; simp [text, closeComment?_append closed]
        · cases h; simp [text]
      · cases h

theorem mark?_append {b : Byte} {rest : Text} {found : Piece × Text}
    (h : mark? b rest = some found) : found.1.text ++ found.2 = b :: rest := by
  cases rest with
  | nil => obtain ⟨kind, _, rfl⟩ := Option.map_eq_some_iff.1 h; rfl
  | cons c rest =>
    rcases Option.or_eq_some_iff.1 h with h | ⟨_, h⟩
    · exact comment?_append h
    · rcases Option.or_eq_some_iff.1 h with h | ⟨_, h⟩ <;>
        obtain ⟨kind, _, rfl⟩ := Option.map_eq_some_iff.1 h <;> rfl

/-- Nothing of a source is lost in its first piece and what is behind it. -/
theorem first_append (b : Byte) (rest : Text) : (first b rest).1.text ++ (first b rest).2 = b :: rest := by
  unfold first
  split
  · rfl
  · split
    · next h => exact mark?_append h
    · split
      · next h => exact string_append b rest
      · split
        · exact List.takeWhile_append_dropWhile
        · split
          · exact number_append (b :: rest)
          · rfl

theorem mark?_text_ne_nil {b : Byte} {rest : Text} {found : Piece × Text}
    (h : mark? b rest = some found) : found.1.text ≠ [] := by
  cases rest with
  | nil => obtain ⟨kind, _, rfl⟩ := Option.map_eq_some_iff.1 h; exact List.cons_ne_nil _ _
  | cons c rest =>
    rcases Option.or_eq_some_iff.1 h with h | ⟨_, h⟩
    · unfold comment? at h
      repeat' split at h
      all_goals cases h
      all_goals exact List.cons_ne_nil _ _
    · rcases Option.or_eq_some_iff.1 h with h | ⟨_, h⟩ <;>
        obtain ⟨kind, _, rfl⟩ := Option.map_eq_some_iff.1 h <;> exact List.cons_ne_nil _ _

theorem number_text_ne_nil {b : Byte} {rest : Text} (digit : isDigit b) :
    (number (b :: rest)).1.text ≠ [] := by
  unfold number
  dsimp only
  split
  · simp [text, digit]
  · split <;> simp [text, digit]

/-- A piece is never empty. -/
theorem first_text_ne_nil (b : Byte) (rest : Text) : (first b rest).1.text ≠ [] := by
  unfold first
  split
  · exact List.cons_ne_nil _ _
  · split
    · next h => exact mark?_text_ne_nil h
    · split
      · unfold string
        dsimp only
        split <;> exact List.cons_ne_nil _ _
      · split
        · next letter => simp [word, text, isWordByte, letter]
        · split
          · next digit => exact number_text_ne_nil digit
          · exact List.cons_ne_nil _ _

/-- Behind the first piece less is left, so cutting a source comes to an end. -/
theorem first_shorter (b : Byte) (rest : Text) : (first b rest).2.length ≤ rest.length := by
  have whole := congrArg List.length (first_append b rest)
  have some := List.length_pos_iff.2 (first_text_ne_nil b rest)
  simp only [List.length_append, List.length_cons] at whole
  omega

/-- Cuts a source into pieces. -/
def split : Text → List Piece
  | [] => []
  | b :: rest =>
    have := first_shorter b rest
    (first b rest).1 :: split (first b rest).2
termination_by source => source.length

/-- Every byte of a source is in one of its pieces. -/
theorem flatten_split (source : Text) : (split source).flatMap text = source := by
  fun_induction split source with
  | case1 => rfl
  | case2 b rest _ ih => rw [List.flatMap_cons, ih, first_append]

/-- The complaints of a piece that begins on a line. -/
def diagnostics (line : Nat) : Piece → List Diagnostic
  | rejected _ complaints => complaints.map fun c => ⟨.lexical, line + c.down, [], c.fault.message⟩
  | _ => []

/-- The tokens among pieces that begin at a place. -/
def tokens (here : Location) : List Piece → List Token
  | [] => []
  | token kind literal :: more => ⟨kind, literal, here⟩ :: tokens (here.after literal) more
  | piece :: more => tokens (here.after piece.text) more

/-- The complaints about pieces that begin at a place, in order. -/
def allDiagnostics (here : Location) : List Piece → List Diagnostic
  | [] => []
  | piece :: more => piece.diagnostics here.line ++ allDiagnostics (here.after piece.text) more

end Piece

/-- A source read as a whole. -/
structure Source where
  tokens : List Token
  /-- The place behind the last byte. -/
  finish : Location
  diagnostics : List Diagnostic

namespace Source

def ofText (source : Text) : Source :=
  let pieces := Piece.split source
  ⟨Piece.tokens .start pieces, Location.start.after source, Piece.allDiagnostics .start pieces⟩

/-- The tokens with the one that closes them. -/
def closed (s : Source) : List Token := s.tokens ++ [.finish s.finish]

end Source

/-- Hands out the tokens of a source one at a time. -/
structure Reader where
  pieces : List Piece
  here : Location
  /-- The complaints about what has been passed so far. -/
  diagnostics : List Diagnostic

namespace Reader

def ofText (source : Text) : Reader := ⟨Piece.split source, .start, []⟩

/-- The next token among pieces, and the reader behind it. -/
def nextFrom (here : Location) (diagnostics : List Diagnostic) : List Piece → Token × Reader
  | [] => (.finish here, ⟨[], here, diagnostics⟩)
  | .token kind literal :: more => (⟨kind, literal, here⟩, ⟨more, here.after literal, diagnostics⟩)
  | piece :: more => nextFrom (here.after piece.text) (diagnostics ++ piece.diagnostics here.line) more

/-- The next token. At the end of the source this is the closing token, again and again. -/
def next (r : Reader) : Token × Reader := nextFrom r.here r.diagnostics r.pieces

/-- Some tokens in turn, each with the reader behind it. -/
def take (r : Reader) : Nat → List (Token × Reader)
  | 0 => []
  | count + 1 => r.next :: r.next.2.take count

end Reader

end TinyScript
