import TinyScript.Proofs.Session.Reports

namespace TinyScript

variable {source filename : Text} {s : Session} {p : Program} {d : Diagnostic} {ds : List Diagnostic} {report : Report}
  {steps : Nat}

theorem Piece.kind_of_mem_diagnostics {line : Nat} {piece : Piece} (mem : d ∈ piece.diagnostics line) :
    d.kind = .lexical := by
  cases piece with
  | rejected text complaints =>
    obtain ⟨complaint, _, rfl⟩ := List.mem_map.1 mem
    rfl
  | _ => cases mem

theorem Piece.kind_of_mem_allDiagnostics {here : Location} {pieces : List Piece}
    (mem : d ∈ allDiagnostics here pieces) : d.kind = .lexical := by
  induction pieces generalizing here with
  | nil => cases mem
  | cons piece more ih =>
    rcases List.mem_append.1 mem with first | later
    · exact kind_of_mem_diagnostics first
    · exact ih later

theorem Source.kind_of_mem_diagnostics (mem : d ∈ (ofText source).diagnostics) : d.kind = .lexical :=
  Piece.kind_of_mem_allDiagnostics mem

theorem Program.kind_of_mem_errors {tokens : List Token} {finish : Location} (mem : d ∈ (ofTokens tokens finish).2) :
    d.kind = .grammatical := by
  have errors : ∃ errors : List GrammarError, (ofTokens tokens finish).2 = errors.map (·.diagnostic) := by
    unfold ofTokens
    dsimp only
    cases Parser.statements (Parser.budget tokens) finish tokens with
    | ok body rest errors => exact ⟨errors, rfl⟩
    | failed rest errors => exact ⟨errors, rfl⟩
  obtain ⟨errors, same⟩ := errors
  rw [same] at mem
  obtain ⟨error, _, rfl⟩ := List.mem_map.1 mem
  rfl

/-- All that is wrong with a source: what is wrong with its tokens, or else what is wrong with the program that they
make up. -/
structure Source.Blamed (source : Text) (ds : List Diagnostic) : Prop where
  some : ds ≠ []
  kinds : (ds = (ofText source).diagnostics ∧ ∀ d ∈ ds, d.kind = .lexical) ∨
    ((ofText source).diagnostics = [] ∧ ∀ d ∈ ds, d.kind = .grammatical)

namespace Session

theorem readProgram_error (read : readProgram source = .error ds) : Source.Blamed source ds := by
  unfold readProgram at read
  dsimp only at read
  split at read
  · next unread =>
    cases read
    exact ⟨unread, .inl ⟨rfl, fun _ => Source.kind_of_mem_diagnostics⟩⟩
  · next fine =>
    split at read
    · next wrong =>
      cases read
      exact ⟨wrong, .inr ⟨Classical.not_not.1 fine, fun _ => Program.kind_of_mem_errors⟩⟩
    · cases read

/-- A name that has been put down for nothing is taken back. -/
theorem run_eq (steps : Nat) (s : Session) (source filename : Text) :
    run steps s source filename = match readProgram source with
      | .error diagnostics => some ⟨.rejected diagnostics, [], s⟩
      | .ok program => interpret steps { s with filenames := s.filenames.insert filename } program := by
  unfold run
  cases readProgram source with
  | ok program => rfl
  | error diagnostics =>
    dsimp only
    by_cases known : filename ∈ s.filenames
    · rw [if_pos known, List.insert_of_mem known]
    · rw [if_neg known, List.insert_of_not_mem known, List.erase_cons_head]

/-- A run that has been rejected, when the source is blamed and nothing has happened. -/
structure Rejects (s : Session) (source : Text) (report : Report) : Prop where
  ending : ∃ ds, report.ending = .rejected ds ∧ Source.Blamed source ds
  printed : report.printed = []
  session : report.session = s

/-- A program that has been run, and has failed or finished. -/
structure Completes (s : Session) (report : Report) : Prop where
  ending : (∃ error, report.ending = .failed error) ∨ ∃ value, report.ending = .finished value
  filenames : report.session.filenames = s.filenames

theorem interpret_completes (run : interpret steps s p = some report) : s.Completes report := by
  rw [interpret_eq] at run
  cases ends : (s.begins p).run steps with
  | done completion st =>
    rw [ends] at run
    cases run
    exact ⟨.inr ⟨_, rfl⟩, rfl⟩
  | failed error st =>
    rw [ends] at run
    cases run
    exact ⟨.inl ⟨_, rfl⟩, rfl⟩
  | unfinished =>
    rw [ends] at run
    cases run

/-- A run is rejected, or it completes under its name. -/
theorem run_outcome (ends : run steps s source filename = some report) :
    s.Rejects source report ∨ { s with filenames := s.filenames.insert filename }.Completes report := by
  rw [run_eq] at ends
  cases read : readProgram source with
  | error diagnostics =>
    rw [read] at ends
    cases ends
    exact .inl ⟨⟨diagnostics, rfl, readProgram_error read⟩, rfl, rfl⟩
  | ok program =>
    rw [read] at ends
    exact .inr (interpret_completes ends)

end Session

end TinyScript
