import TinyScript.Proofs.Parser.Modular

namespace TinyScript

/-- Where reading goes on after a failure in a source. -/
inductive Boundary (source : List Token) : List Token → Prop
  | finish : Boundary source []
  | word {t : Token} {rest : List Token} : t.kind.beginsStatement → Boundary source (t :: rest)
  | behind {semicolon : Token} {resume : List Token} : semicolon.kind = .semicolon →
      semicolon :: resume <:+ source → Boundary source resume

theorem Boundary.mono {source mid resume : List Token} (boundary : Boundary mid resume) (suffix : mid <:+ source) :
    Boundary source resume := by
  cases boundary with
  | finish => exact .finish
  | word begins => exact .word begins
  | behind kind within => exact .behind kind (within.trans suffix)

theorem resync_boundary (source : List Token) : Boundary source (resync source) := by
  fun_induction resync source with
  | case1 => exact .finish
  | case2 t rest begins => exact .word begins
  | case3 t rest _ kind => exact .behind kind List.suffix_rfl
  | case4 t rest _ _ ih => exact ih.mono (List.suffix_cons t rest)

namespace Parser

variable {α β : Type} {p : Parser α} {f : α → Parser β} 

/-- Every failure of a parser goes on at a boundary. -/
structure Bounded (p : Parser α) : Prop where
  advances : Advances p
  boundary : ∀ finish source resume errors, p finish source = .failed resume errors → Boundary source resume

theorem Bounded.of_ok (advances : Advances p)
    (succeeds : ∀ finish source resume errors, p finish source ≠ .failed resume errors) : Bounded p :=
  ⟨advances, fun finish source resume errors run => absurd run (succeeds finish source resume errors)⟩

theorem Bounded.bind (first : Bounded p) (later : ∀ a, Bounded (f a)) : Bounded (p >>= f) where
  advances := first.advances.bind fun a => (later a).advances
  boundary finish source resume errors run := by
    rcases bind_eq_failed_iff.1 run with run | ⟨a, mid, _, last, run, failed, _⟩
    · exact first.boundary finish source resume errors run
    · have suffix := first.advances finish source
      rw [run] at suffix
      exact ((later a).boundary finish mid resume last failed).mono suffix

theorem Bounded.pure (a : α) : Bounded (pure a : Parser α) := .of_ok (.pure a) fun _ _ _ _ run => by cases run

theorem Bounded.look : Bounded look := .of_ok .look fun _ _ _ _ run => by cases run

theorem Bounded.lookBehind : Bounded lookBehind := .of_ok .lookBehind fun _ _ _ _ run => by cases run

theorem Bounded.skip : Bounded skip := .of_ok .skip fun _ _ _ _ run => by cases run

theorem Bounded.report (t : Token) (fault : GrammarFault) : Bounded (report t fault) :=
  .of_ok (.report t fault) fun _ _ _ _ run => by cases run

theorem Bounded.exhausted : Bounded (exhausted : Parser α) where
  advances := Consumes.exhausted.advances
  boundary _ _ _ _ run := by
    cases run
    exact .finish

theorem Bounded.accept (kind : Token.Kind) : Bounded (accept kind) := by
  refine .of_ok (.accept kind) fun finish source resume errors run => ?_
  unfold Parser.accept at run
  repeat' split at run
  all_goals cases run

theorem Bounded.expect (kind : Token.Kind) (fault : GrammarFault) : Bounded (expect kind fault) where
  advances := .expect kind fault
  boundary finish source resume errors run := by
    unfold Parser.expect at run
    repeat' split at run
    all_goals cases run
    · exact .finish
    · exact resync_boundary _

theorem resyncBehind_boundary (t : Token) (rest : List Token) : Boundary (t :: rest) (resyncBehind t rest) := by
  unfold resyncBehind
  split
  · next kind => exact .behind kind List.suffix_rfl
  · exact (resync_boundary rest).mono (List.suffix_cons t rest)

theorem Bounded.take {fault : GrammarFault} {f : Token → Parser β}
    (later : ∀ t, Bounded (f t) ∨ ∃ fault, f t = Parser.reject t fault) : Bounded (Parser.take fault >>= f) where
  advances := (Consumes.take fault).advances.bind fun t => by
    rcases later t with bounded | ⟨fault, rejects⟩
    · exact bounded.advances
    · exact rejects ▸ .reject t fault
  boundary finish source resume errors run := by
    cases source with
    | nil =>
      cases run
      exact .finish
    | cons t source =>
      rw [take_bind] at run
      rcases later t with bounded | ⟨fault, rejects⟩
      · exact (bounded.boundary finish source resume errors run).mono (List.suffix_cons t source)
      · rw [rejects] at run
        cases run
        exact resyncBehind_boundary t source

theorem Bounded.recover (bounded : Bounded p) : Bounded (recover p) :=
  .of_ok bounded.advances.recover fun _ _ _ _ => recover_ne_failed

theorem modular_bounded : Modular fun _ _ p => Bounded p where
  pure := .pure
  bind := .bind
  exhausted := .exhausted
  skip := .skip
  accept := .accept
  expect := .expect
  report fault _ := .report _ fault
  look later := .bind .look later
  lookBehind later _ := .bind .lookBehind later
  take := .take
  recover := .recover

/-- Every parser of expressions and statements leaves a failure at a boundary, whatever its steps. -/
theorem bounded (n : Nat) : Everywhere (fun _ _ p => Bounded p) n := modular_bounded.everywhere n

end Parser

end TinyScript
