import TinyScript.Proofs.Token.Pieces

namespace TinyScript

open Text

/-- The place behind some text. The line counts the line breaks in it, and the column the bytes behind the last
one. -/
structure Location.Behind (front : Text) (here : Location) : Prop where
  line : here.line = 1 + front.breaks
  column : ∃ lineStart ≤ front.length, (lineStart = 0 ∨ front[lineStart - 1]? = some newline) ∧
    newline ∉ front.drop lineStart ∧ here.column = front.length - lineStart + 1

namespace Location

theorem after_append (here : Location) (a b : Text) : here.after (a ++ b) = (here.after a).after b :=
  List.foldl_append

theorem Behind.next {front : Text} {here : Location} (behind : here.Behind front) (b : Byte) :
    (here.next b).Behind (front ++ [b]) := by
  obtain ⟨line, lineStart, inside, starts, none, column⟩ := behind
  by_cases ends : b = newline
  · subst ends
    have below : here.next newline = ⟨here.line + 1, 1⟩ := if_pos rfl
    rw [below]
    refine ⟨?_, front.length + 1, by simp, .inr (by simp), by simp, by simp⟩
    simp [breaks, line, Nat.add_assoc]
  · have beside : here.next b = ⟨here.line, here.column + 1⟩ := if_neg ends
    rw [beside]
    refine ⟨?_, lineStart, by simp; omega, ?_, ?_, ?_⟩
    · simp [breaks, line, ends]
    · refine starts.imp_right fun found => ?_
      obtain ⟨lower, _⟩ := List.getElem?_eq_some_iff.1 found
      rwa [List.getElem?_append_left lower]
    · have other : newline ≠ b := fun same => ends same.symm
      rw [List.drop_append_of_le_length inside]
      simp [none, other]
    · simp only [column, List.length_append, List.length_singleton]
      omega

/-- Stepping over a text leads to the place behind it. -/
theorem behind_after (front : Text) : (Location.start.after front).Behind front := by
  induction front using List.reverseRecOn with
  | nil => exact ⟨rfl, 0, Nat.le_refl 0, .inl rfl, by simp, rfl⟩
  | append_singleton front b ih =>
    rw [after_append]
    exact ih.next b

end Location

/-- Text without a token, before some other text, and the diagnostics about it. It begins on a line. -/
inductive Gap (behind : Text) : Nat → Text → List Diagnostic → Prop
  | nil {line : Nat} : Gap behind line [] []
  | blank {line : Nat} {b : Byte} {t : Text} {diagnostics : List Diagnostic} : isBlank b →
      Gap behind (line + breaks [b]) t diagnostics → Gap behind line (b :: t) diagnostics
  | comment {line : Nat} {c t : Text} {diagnostics : List Diagnostic} : Comment (t ++ behind) c →
      Gap behind (line + breaks c) t diagnostics → Gap behind line (c ++ t) diagnostics
  | rejected {line : Nat} {stretch t : Text} {complaints : List Complaint} {diagnostics : List Diagnostic} :
      Rejected (t ++ behind) stretch complaints → Gap behind (line + breaks stretch) t diagnostics →
      Gap behind line (stretch ++ t) ((Piece.rejected stretch complaints).diagnostics line ++ diagnostics)

/-- How the source behind an offset is made of gaps and tokens in turn. The tokens start at the given offsets,
the closing one at the end of the source. -/
inductive Layout (source : Text) : Nat → List Nat → List Token → List Diagnostic → Prop
  | finish {stop : Nat} {here : Location} {diagnostics : List Diagnostic} : stop ≤ source.length →
      Gap [] (1 + breaks (source.take stop)) (source.drop stop) diagnostics → here.Behind source →
      Layout source stop [source.length] [.finish here] diagnostics
  | token {stop start : Nat} {t : Token} {starts : List Nat} {tokens : List Token}
      {diagnostics later : List Diagnostic} : stop ≤ start →
      Gap (source.drop start) (1 + breaks (source.take stop)) ((source.take start).drop stop) diagnostics →
      t.kind ≠ .endOfInput → t.literal ≠ [] → t.literal <+: source.drop start →
      t.location.Behind (source.take start) → Layout source (start + t.literal.length) starts tokens later →
      Layout source stop (start :: starts) (t :: tokens) (diagnostics ++ later)

namespace Layout

variable {source front stretch rest : Text} {stop : Nat} {starts : List Nat} {tokens : List Token}
  {diagnostics : List Diagnostic}

theorem stop_le (layout : Layout source stop starts tokens diagnostics) : ∀ start ∈ starts, stop ≤ start := by
  induction layout with
  | finish inside _ _ => simpa using inside
  | @token stop start t starts tokens _ _ ordered _ _ _ _ _ _ ih =>
    intro other mem
    rcases List.mem_cons.1 mem with rfl | mem
    · exact ordered
    · have later := ih other mem
      omega

/-- The tokens start one behind the other. -/
theorem increasing (layout : Layout source stop starts tokens diagnostics) : starts.Pairwise (· < ·) := by
  induction layout with
  | finish => simp
  | @token stop start t starts tokens _ _ _ _ _ some _ _ rest ih =>
    refine List.pairwise_cons.2 ⟨fun later mem => ?_, ih⟩
    have bound := rest.stop_le later mem
    have long := List.length_pos_iff.2 some
    omega

theorem getLast?_starts (layout : Layout source stop starts tokens diagnostics) :
    starts.getLast? = some source.length := by
  induction layout with
  | finish => rfl
  | token _ _ _ _ _ _ rest ih =>
    rw [List.getLast?_cons, ih]
    rfl

/-- Only the last token closes. -/
theorem kind_ne_endOfInput (layout : Layout source stop starts tokens diagnostics) :
    ∀ t ∈ tokens.dropLast, t.kind ≠ .endOfInput := by
  induction layout with
  | finish => simp
  | @token _ _ t _ tokens _ _ _ _ kind _ _ _ rest ih =>
    have more : tokens ≠ [] := by cases rest <;> simp
    rw [List.dropLast_cons_of_ne_nil more]
    intro other mem
    rcases List.mem_cons.1 mem with rfl | mem
    · exact kind
    · exact ih other mem

/-- The text behind one offset goes on to a later one, and then behind that. -/
theorem between_append {first second : Nat} (ordered : first ≤ second) (t : Text) :
    (t.take second).drop first ++ t.drop second = t.drop first := by
  have further : t.drop second = (t.drop first).drop (second - first) := by
    rw [List.drop_drop]
    congr 1
    omega
  rw [List.drop_take, further, List.take_append_drop]

/-- A stretch in front of a layout is part of its first gap. -/
theorem widen (own : List Diagnostic)
    (layout : Layout (front ++ (stretch ++ rest)) (front ++ stretch).length starts tokens diagnostics)
    (grows : ∀ behind t diagnostics, t ++ behind = rest → Gap behind (1 + breaks (front ++ stretch)) t diagnostics →
      Gap behind (1 + breaks front) (stretch ++ t) (own ++ diagnostics)) :
    Layout (front ++ (stretch ++ rest)) front.length starts tokens (own ++ diagnostics) := by
  have whole : front ++ (stretch ++ rest) = front ++ stretch ++ rest := (List.append_assoc ..).symm
  have longer : front.length ≤ (front ++ stretch).length := by simp
  generalize same : front ++ (stretch ++ rest) = source at layout ⊢
  have before : source.take front.length = front := by simp [← same]
  have ahead : source.take (front ++ stretch).length = front ++ stretch := by rw [← same, whole, List.take_left]
  have left : source.drop (front ++ stretch).length = rest := by rw [← same, whole, List.drop_left]
  cases layout with
  | finish inside gap behind =>
    rw [ahead, left] at gap
    have wider := grows [] rest _ (List.append_nil rest) gap
    have all : source.drop front.length = stretch ++ rest := by rw [← same, List.drop_left]
    refine .finish (Nat.le_trans longer inside) ?_ behind
    rwa [before, all]
  | @token _ start t starts tokens gapDiagnostics later ordered gap kind some literal behind more =>
    have upTo : (source.take start).take (front ++ stretch).length = front ++ stretch := by
      rw [List.take_take, Nat.min_eq_left ordered, ahead]
    have text := between_append longer (source.take start)
    rw [upTo, List.drop_left] at text
    rw [ahead] at gap
    have wider := grows _ _ _ (by rw [between_append ordered, left]) gap
    have layout : Layout source front.length (start :: starts) (t :: tokens) ((own ++ gapDiagnostics) ++ later) := by
      refine .token (Nat.le_trans longer ordered) ?_ kind some literal behind more
      rwa [before, ← text]
    rwa [List.append_assoc] at layout

/-- The pieces of a source lay it out, whatever stands before it. -/
theorem of_split (front rest : Text) :
    ∃ starts, Layout (front ++ rest) front.length starts
      (Piece.tokens (Location.start.after front) (Piece.split rest) ++
        [.finish (Location.start.after (front ++ rest))])
      (Piece.allDiagnostics (Location.start.after front) (Piece.split rest)) := by
  fun_induction Piece.split rest generalizing front with
  | case1 =>
    refine ⟨_, .finish (by simp) ?_ (Location.behind_after _)⟩
    rw [List.append_nil, List.drop_length]
    exact .nil
  | case2 b rest _ ih =>
    have described := Piece.first_described b rest
    have some := Piece.first_text_ne_nil b rest
    have whole := Piece.first_append b rest
    have here := Location.behind_after front
    generalize Piece.first b rest = found at *
    obtain ⟨piece, behind⟩ := found
    dsimp only at described some whole ih ⊢
    obtain ⟨starts, layout⟩ := ih (front ++ piece.text)
    rw [Location.after_append, List.append_assoc] at layout
    rw [← whole]
    cases piece with
    | blank text =>
      refine ⟨starts, layout.widen [] fun after t diagnostics same gap => ?_⟩
      rw [breaks, List.count_append, ← Nat.add_assoc] at gap
      rcases described with ⟨b, blank, rfl⟩ | comment
      · exact .blank blank gap
      · exact .comment (same ▸ comment) gap
    | rejected text complaints =>
      refine ⟨starts, ?_⟩
      refine layout.widen ((Piece.rejected text complaints).diagnostics _) fun after t diagnostics same gap => ?_
      rw [breaks, List.count_append, ← Nat.add_assoc] at gap
      rw [here.line]
      exact .rejected (same ▸ described) gap
    | token kind literal =>
      refine ⟨front.length :: starts, .token (Nat.le_refl _) ?_ described.1 some ?_ ?_ ?_⟩
      · rw [List.take_left, List.drop_length]
        exact .nil
      · rw [List.drop_left]
        exact List.prefix_append literal behind
      · rwa [List.take_left]
      · rwa [List.length_append] at layout

end Layout

namespace Reader

/-- Past the last piece there is only the closing token. -/
theorem take_nil (here : Location) (diagnostics : List Diagnostic) (more : Nat) :
    take ⟨[], here, diagnostics⟩ more = List.replicate more (.finish here, ⟨[], here, diagnostics⟩) := by
  induction more with
  | zero => rfl
  | succ more ih =>
    rw [List.replicate_succ, ← ih]
    rfl

/-- A piece that is no token is passed over. -/
theorem take_skip {piece : Piece} (noToken : ∀ kind literal, piece ≠ .token kind literal) (pieces : List Piece)
    (here : Location) (diagnostics : List Diagnostic) (count : Nat) :
    take ⟨piece :: pieces, here, diagnostics⟩ count =
      take ⟨pieces, here.after piece.text, diagnostics ++ piece.diagnostics here.line⟩ count := by
  cases count with
  | zero => rfl
  | succ count =>
    cases piece with
    | blank text => rfl
    | rejected text complaints => rfl
    | token kind literal => exact absurd rfl (noToken kind literal)

/-- Asking for more tokens than there are gives all tokens and then the closing one, again and again. By then all
diagnostics are there, and they stay as they are. -/
theorem take_past (pieces : List Piece) (here : Location) (diagnostics : List Diagnostic) (more : Nat) :
    ∃ calls, calls.map (·.1) = Piece.tokens here pieces ∧
      take ⟨pieces, here, diagnostics⟩ ((Piece.tokens here pieces).length + more) =
        calls ++ List.replicate more (.finish (here.after (pieces.flatMap Piece.text)),
          ⟨[], here.after (pieces.flatMap Piece.text), diagnostics ++ Piece.allDiagnostics here pieces⟩) := by
  induction pieces generalizing here diagnostics with
  | nil =>
    refine ⟨[], rfl, ?_⟩
    simp [Piece.tokens, Piece.allDiagnostics, Location.after, take_nil]
  | cons piece pieces ih =>
    obtain ⟨calls, tokens, run⟩ := ih (here.after piece.text) (diagnostics ++ piece.diagnostics here.line)
    rw [List.flatMap_cons, Location.after_append, Piece.allDiagnostics, ← List.append_assoc]
    cases piece with
    | blank text => exact ⟨calls, tokens, (take_skip (by simp) ..).trans run⟩
    | rejected text complaints => exact ⟨calls, tokens, (take_skip (by simp) ..).trans run⟩
    | token kind literal =>
      refine ⟨(⟨kind, literal, here⟩, ⟨pieces, here.after literal, diagnostics⟩) :: calls, ?_, ?_⟩
      · rw [List.map_cons, tokens]
        rfl
      · have nothing : diagnostics ++ (Piece.token kind literal).diagnostics here.line = diagnostics :=
          List.append_nil _
        rw [nothing] at run ⊢
        rw [Piece.tokens, List.length_cons, Nat.add_right_comm, List.cons_append, ← run]
        rfl

end Reader

namespace Source

/-- Every byte of a source is accounted for, and every token has its true place. The tokens, the closing one among
them, start at growing offsets, and the closing one at the end of the source. What is between them is blank, a
comment, or complained about. Asking for one token after the other gives the same tokens, and nothing new once the
closing one has come. -/
theorem accounts_for_every_byte (source : Text) :
    let read := ofText source
    (∃ starts, Layout source 0 starts read.closed read.diagnostics ∧ starts.Pairwise (· < ·) ∧
      starts.getLast? = some source.length) ∧
    read.closed = read.tokens ++ [.finish read.finish] ∧ (∀ t ∈ read.tokens, t.kind ≠ .endOfInput) ∧
    ∀ more, ∃ calls, calls.map (·.1) = read.tokens ∧
      (Reader.ofText source).take (read.tokens.length + more) =
        calls ++ List.replicate more (.finish read.finish, ⟨[], read.finish, read.diagnostics⟩) := by
  intro read
  obtain ⟨starts, layout⟩ := Layout.of_split [] source
  have kinds := layout.kind_ne_endOfInput
  rw [List.dropLast_concat] at kinds
  refine ⟨⟨starts, layout, layout.increasing, layout.getLast?_starts⟩, rfl, kinds, fun more => ?_⟩
  have run := Reader.take_past (Piece.split source) .start [] more
  rwa [Piece.flatten_split] at run

end Source

end TinyScript
