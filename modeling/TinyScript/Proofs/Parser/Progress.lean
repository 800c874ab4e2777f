import TinyScript.Proofs.Parser.Graded

namespace TinyScript

theorem resync_suffix (source : List Token) : resync source <:+ source := by
  fun_induction resync source with
  | case1 => exact List.suffix_rfl
  | case2 t rest _ => exact List.suffix_rfl
  | case3 t rest _ _ => exact List.suffix_cons t rest
  | case4 t rest _ _ ih => exact ih.trans (List.suffix_cons t rest)

theorem resyncBehind_suffix (taken : Token) (rest : List Token) : resyncBehind taken rest <:+ rest := by
  unfold resyncBehind
  split
  · exact List.suffix_rfl
  · exact resync_suffix rest

namespace Parser

variable {α β : Type} {p : Parser α} {f : α → Parser β}

/-- Reading goes on at what is left, after a success as after a failure. -/
def Advances (p : Parser α) : Prop := ∀ finish source, (p finish source).rest <:+ source

/-- The first token, if there is one, is always taken. -/
def Passes (p : Parser α) : Prop := ∀ finish t source, (p finish (t :: source)).rest <:+ source

/-- The first token is always taken, and without one there is no success. -/
structure Consumes (p : Parser α) : Prop where
  nil : ∀ finish, ∃ errors, p finish [] = .failed [] errors
  cons : Passes p

theorem Consumes.advances (consumes : Consumes p) : Advances p := by
  intro finish source
  cases source with
  | nil =>
    obtain ⟨errors, run⟩ := consumes.nil finish
    rw [run]
    exact List.suffix_rfl
  | cons t rest => exact (consumes.cons finish t rest).trans (List.suffix_cons t rest)

theorem Advances.length_le (advances : Advances p) {finish : Location} {source rest : List Token} {a : α}
    {errors : List GrammarError} (run : p finish source = .ok a rest errors) : rest.length ≤ source.length := by
  have suffix := advances finish source
  rw [run] at suffix
  exact suffix.length_le

theorem Consumes.length_lt (consumes : Consumes p) {finish : Location} {source rest : List Token} {a : α}
    {errors : List GrammarError} (run : p finish source = .ok a rest errors) : rest.length < source.length := by
  cases source with
  | nil =>
    obtain ⟨_, failed⟩ := consumes.nil finish
    cases run.symm.trans failed
  | cons t later =>
    have suffix := consumes.cons finish t later
    rw [run] at suffix
    exact Nat.lt_succ_of_le suffix.length_le

theorem Consumes.length_lt_of_failed (consumes : Consumes p) {finish : Location} {source resume : List Token}
    {errors : List GrammarError} (some : source ≠ []) (run : p finish source = .failed resume errors) :
    resume.length < source.length := by
  cases source with
  | nil => exact absurd rfl some
  | cons t later =>
    have suffix := consumes.cons finish t later
    rw [run] at suffix
    exact Nat.lt_succ_of_le suffix.length_le

theorem Advances.pure (a : α) : Advances (pure a : Parser α) := fun _ _ => List.suffix_rfl

theorem Advances.look : Advances look := fun _ _ => List.suffix_rfl

theorem Advances.lookBehind : Advances lookBehind := fun _ _ => List.suffix_rfl

theorem Advances.skip : Advances skip := fun _ source => List.tail_suffix source

theorem Advances.report (t : Token) (fault : GrammarFault) : Advances (report t fault) :=
  fun _ _ => List.suffix_rfl

theorem Advances.reject (t : Token) (fault : GrammarFault) : Advances (reject t fault : Parser α) :=
  fun _ source => resyncBehind_suffix t source

theorem Advances.accept (kind : Token.Kind) : Advances (accept kind) := by
  intro finish source
  cases source with
  | nil => exact List.suffix_rfl
  | cons t rest =>
    by_cases same : t.kind = kind
    · rw [accept_eq_some same]
      exact List.suffix_cons t rest
    · have different : kindAt (t :: rest) ≠ kind := same
      rw [accept_eq_none different]
      exact List.suffix_rfl

theorem Advances.expect (kind : Token.Kind) (fault : GrammarFault) : Advances (expect kind fault) := by
  intro finish source
  cases source with
  | nil => exact List.suffix_rfl
  | cons t rest =>
    by_cases same : t.kind = kind
    · rw [expect_eq_ok same]
      exact List.suffix_cons t rest
    · simp only [Parser.expect, same, if_false]
      exact resync_suffix _

theorem Consumes.exhausted : Consumes (exhausted : Parser α) :=
  ⟨fun _ => ⟨[], rfl⟩, fun _ _ _ => List.nil_suffix⟩

theorem Consumes.take (fault : GrammarFault) : Consumes (take fault) :=
  ⟨fun _ => ⟨_, rfl⟩, fun _ _ _ => List.suffix_rfl⟩

theorem Advances.bind (first : Advances p) (later : ∀ a, Advances (f a)) : Advances (p >>= f) := by
  intro finish source
  have suffix := first finish source
  cases run : p finish source with
  | ok a rest errors =>
    rw [run] at suffix
    rw [bind_ok run, Reply.rest_behind]
    exact (later a finish rest).trans suffix
  | failed resume errors =>
    rw [run] at suffix
    rw [bind_failed run]
    exact suffix

theorem Consumes.bind (first : Consumes p) (later : ∀ a, Advances (f a)) : Consumes (p >>= f) where
  nil finish := by
    obtain ⟨errors, run⟩ := first.nil finish
    exact ⟨errors, bind_failed run⟩
  cons finish t source := by
    have suffix := first.cons finish t source
    cases run : p finish (t :: source) with
    | ok a rest errors =>
      rw [run] at suffix
      rw [bind_ok run, Reply.rest_behind]
      exact (later a finish rest).trans suffix
    | failed resume errors =>
      rw [run] at suffix
      rw [bind_failed run]
      exact suffix

theorem Advances.recover (advances : Advances p) : Advances (recover p) := by
  intro finish source
  rw [recover_rest]
  exact advances finish source

theorem Passes.skip_bind {f : Unit → Parser α} (later : Advances (f ())) : Passes (Parser.skip >>= f) := by
  intro finish t source
  rw [Parser.skip_bind]
  exact later finish source

/-- Whether a function is declared or evaluated, its first word is taken. -/
theorem Passes.function {n : Nat} {location : Location} (literal : Advances (functionLiteral n location))
    (statement : Consumes (expressionStatement n location)) (kind : Token.Kind) :
    Passes (if kind = .identifier then do
        Parser.skip
        return .function (← functionLiteral n location)
      else expressionStatement n location) := by
  split
  · exact .skip_bind (literal.bind fun _ => .pure _)
  · exact statement.cons

theorem graded_forward :
    Graded (fun _ _ p => Advances p) (fun _ _ _ p => Passes p) (fun _ _ p => Consumes p) where
  weaken := Consumes.advances
  begin := Consumes.cons
  pure := .pure
  bind := .bind
  needs_bind := .bind
  exhausted := .exhausted
  skip := .skip
  accept := .accept
  expect := .expect
  take later := .bind (.take _) fun t => (later t).elim id fun ⟨fault, rejects⟩ => rejects ▸ .reject t fault
  report _ consumes := consumes.advances.bind fun _ => .bind (.report _ _) fun _ => .pure _
  look := .bind .look
  needs_look last later := {
    nil := fun finish => by
      rw [look_bind]
      exact (last _ rfl).nil finish
    cons := fun finish t source => by
      rw [look_bind]
      exact later _ finish t source }
  at_skip := .skip_bind
  at_function _ literal statement finish t source := by
    rw [lookBehind_bind]
    exact Passes.function literal statement _ finish t source
  loop stops _ _ _ _ _ atEnd consumes later _ := .bind .look fun t => by
    split
    · exact atEnd []
    · exact (consumes []).advances.recover.bind (later [])

theorem Consumes.propertyKey : Consumes propertyKey := @Graded.propertyKey _ _ _ [] graded_forward

theorem Advances.parameters (n : Nat) : Advances (parameters n) := @Graded.parameters _ _ _ [] graded_forward n

theorem Advances.statementEnd (fault : GrammarFault) : Advances (statementEnd fault) :=
  @Graded.statementEnd _ _ _ [] graded_forward fault

/-- What every parser of expressions and statements does to its source, whatever its steps. -/
structure Forward (n : Nat) : Prop where
  expression : ∀ level, Consumes (expression n level)
  operand : Consumes (operand n)
  carryOn : ∀ level left, Advances (carryOn n level left)
  connect : ∀ connective t left, Advances (connect n connective t left)
  list : ∀ close fault, Advances (list n close fault)
  moreExpressions : Advances (moreExpressions n)
  pairs : Advances (pairs n)
  functionLiteral : ∀ location, Advances (functionLiteral n location)
  blockBody : Advances (blockBody n)
  declaration : ∀ location, Advances (declaration n location)
  initializer : Advances (initializer n)
  loopCondition : Advances (loopCondition n)
  increment : Advances (increment n)
  statement : Consumes (statement n)
  expressionStatement : ∀ location, Consumes (expressionStatement n location)

theorem forward (n : Nat) : Forward n :=
  have all := graded_forward.throughout n
  { expression := @all.expression []
    operand := @all.operand []
    carryOn := @all.carryOn []
    connect := fun c t left => @all.connect [t] c t left List.mem_cons_self
    list := @all.list []
    moreExpressions := @all.moreExpressions []
    pairs := @all.pairs []
    functionLiteral := @all.functionLiteral []
    blockBody := @all.blockBody []
    declaration := @all.declaration []
    initializer := @all.initializer []
    loopCondition := @all.loopCondition []
    increment := @all.increment []
    statement := @all.statement []
    expressionStatement := @all.expressionStatement [] }

theorem Advances.statements (n : Nat) : Advances (statements n) := by
  induction n with
  | zero => exact Consumes.exhausted.advances
  | succ n ih =>
    refine .bind .look fun t => ?_
    split
    · exact .pure _
    · exact .bind (forward n).statement.advances.recover fun _ => .bind ih fun _ => .pure _

end Parser

end TinyScript
