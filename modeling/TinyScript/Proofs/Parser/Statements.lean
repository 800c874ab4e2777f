import TinyScript.Proofs.Parser.Budget

namespace TinyScript

open TinyScript.Parser

variable {finish : Location} {source rest resume : List Token} {errors : List GrammarError}

theorem enough_budget (tokens : List Token) : Enough (budget tokens) (budget tokens) 5 tokens := by
  unfold budget
  exact ⟨by omega, by omega⟩

/-- The budget of a program is enough for it. -/
theorem settles_statements (tokens : List Token) (finish : Location) :
    Settles statements finish tokens (statements (budget tokens) finish tokens) :=
  settles_of_agree (fun n => statements_agree n) (enough_budget tokens).left

/-- Statements are read to the end, whatever errors they have. -/
theorem Parser.statements_ok (n : Nat) : ∀ {source}, Enough n n 5 source →
    ∃ body last errors, statements n finish source = .ok body last errors := by
  induction n with
  | zero => exact fun enough => (enough.not_zero).elim
  | succ n ih =>
    intro source enough
    obtain ⟨_, _, same, same', fewer⟩ := enough.succ
    cases same
    cases same'
    by_cases last : kindAt source = .endOfInput
    · refine ⟨[], source, [], ?_⟩
      rw [statements, look_bind, look_kind, last]
      rfl
    · cases source with
      | nil => exact absurd rfl last
      | cons t source =>
        rw [statements, look_bind, look_kind]
        simp only [last, if_false]
        cases attempt : recover (statement n) finish (t :: source) with
        | failed resume errors => exact (recover_ne_failed attempt).elim
        | ok first mid errors =>
          have shorter := recover_shorter (forward n).statement.cons attempt
          obtain ⟨more, last, behind, run⟩ := ih (fewer.behind (Nat.lt_succ_of_le shorter) (by omega))
          exact ⟨first.toList ++ more, last, errors ++ behind, by
            rw [bind_ok attempt, bind_ok run]
            simp [Reply.behind]⟩

theorem Program.ofTokens_eq {body : List Stmt} {last : List Token}
    (settles : Settles Parser.statements finish source (.ok body last errors)) :
    (Program.ofTokens source finish).1.statements = body ∧
      (Program.ofTokens source finish).2 = errors.map (·.diagnostic) := by
  rw [Program.ofTokens, (settles_statements source finish).unique settles]
  exact ⟨rfl, rfl⟩

@[simp] theorem Program.ofTokens_nil (finish : Location) :
    (Program.ofTokens [] finish).1.statements = [] ∧ (Program.ofTokens [] finish).2 = [] := ⟨rfl, rfl⟩

/-- What is made of one statement, or of one that is left out, stands in front of what follows. -/
theorem Program.ofTokens_of_settles {first : Option Stmt} (going : kindAt source ≠ .endOfInput)
    (settles : Settles (fun n => recover (statement n)) finish source (.ok first rest errors)) :
    (Program.ofTokens source finish).1.statements = first.toList ++ (Program.ofTokens rest finish).1.statements ∧
      (Program.ofTokens source finish).2 = errors.map (·.diagnostic) ++ (Program.ofTokens rest finish).2 := by
  have later := settles_statements rest finish
  obtain ⟨more, last, behind, run⟩ := statements_ok _ (enough_budget rest)
  rw [run] at later
  have whole : Settles Parser.statements finish source (.ok (first.toList ++ more) last (errors ++ behind)) := by
    refine .of_succ (.look ?_)
    rw [look_kind]
    simp only [going, if_false]
    have tail := later.bind (f := fun _ more => pure (first.toList ++ more)) (.pure _)
    have both := settles.bind (f := fun n first => do
      let more ← Parser.statements n
      pure (first.toList ++ more)) tail
    simpa [Reply.behind] using both
  obtain ⟨body, diagnostics⟩ := Program.ofTokens_eq whole
  obtain ⟨body', diagnostics'⟩ := Program.ofTokens_eq later
  rw [body, body', diagnostics, diagnostics', List.map_append]
  exact ⟨rfl, rfl⟩

theorem Program.ofTokens_of_ok {s : Stmt} (going : kindAt source ≠ .endOfInput)
    (settles : Settles statement finish source (.ok s rest errors)) :
    (Program.ofTokens source finish).1.statements = s :: (Program.ofTokens rest finish).1.statements ∧
      (Program.ofTokens source finish).2 = errors.map (·.diagnostic) ++ (Program.ofTokens rest finish).2 :=
  Program.ofTokens_of_settles going settles.recover_some

theorem Program.ofTokens_of_failed (going : kindAt source ≠ .endOfInput)
    (settles : Settles statement finish source (.failed resume errors)) :
    (Program.ofTokens source finish).1.statements = (Program.ofTokens resume finish).1.statements ∧
      (Program.ofTokens source finish).2 = errors.map (·.diagnostic) ++ (Program.ofTokens resume finish).2 :=
  Program.ofTokens_of_settles going settles.recover_none

end TinyScript
