import TinyScript.Proofs.Parser.Reply

namespace TinyScript.Parser

/-- Three grades of a property that are shown by single steps. They may speak of tokens that have been seen before. -/
structure Graded (Any : List Token → (α : Type) → Parser α → Prop)
    (At : Token → List Token → (α : Type) → Parser α → Prop)
    (Needs : List Token → (α : Type) → Parser α → Prop) : Prop where
  weaken : ∀ {seen α} {p : Parser α}, Needs seen α p → Any seen α p
  begin : ∀ {seen α t} {p : Parser α}, Needs seen α p → At t seen α p
  pure : ∀ {seen α} (a : α), Any seen α (pure a)
  bind : ∀ {seen α β} {p : Parser α} {f : α → Parser β}, Any seen α p → (∀ a, Any seen β (f a)) → Any seen β (p >>= f)
  needs_bind : ∀ {seen α β} {p : Parser α} {f : α → Parser β}, Needs seen α p → (∀ a, Any seen β (f a)) →
    Needs seen β (p >>= f)
  exhausted : ∀ {seen α}, Needs seen α exhausted
  skip : ∀ {seen}, Any seen Unit skip
  accept : ∀ {seen} kind, Any seen (Option Token) (accept kind)
  expect : ∀ {seen} kind fault, Any seen Token (expect kind fault)
  /-- Only a token that has just been taken is rejected. -/
  take : ∀ {seen β} {fault : GrammarFault} {f : Token → Parser β},
    (∀ t, Any seen β (f t) ∨ ∃ fault, f t = reject t fault) → Needs seen β (take fault >>= f)
  /-- A token is only reported behind something that has been found. -/
  report : ∀ {seen α β t} {p : Parser α} {fault : GrammarFault} {b : β}, t ∈ seen → Needs seen α p →
    Any seen β (p >>= fun _ => report t fault >>= fun _ => Pure.pure b)
  look : ∀ {seen β} {f : Token → Parser β}, (∀ t, Any (t :: seen) β (f t)) → Any seen β (look >>= f)
  needs_look : ∀ {seen β} {f : Token → Parser β},
    (∀ t, t.kind = .endOfInput → Needs (t :: seen) β (f t)) → (∀ t, At t (t :: seen) β (f t)) →
    Needs seen β (Parser.look >>= f)
  at_skip : ∀ {seen β t} {f : Unit → Parser β}, Any seen β (f ()) → At t seen β (Parser.skip >>= f)
  /-- The word of a function begins a declaration or an expression, which the token behind it decides. -/
  at_function : ∀ {seen n t}, t.kind = .functionWord → Any seen FunctionLiteral (functionLiteral n t.location) →
    Needs seen Stmt (expressionStatement n t.location) →
    At t seen Stmt (do
      if (← lookBehind) = .identifier then do
        Parser.skip
        return .function (← functionLiteral n t.location)
      else expressionStatement n t.location)
  /-- A loop that looks where it stands and either stops there or goes on behind a round that may fail. There is
  more to be found behind a round that is left out. -/
  loop : ∀ {seen α β} (stops : Token.Kind → Prop) [DecidablePred stops] {last : Parser β} {p : Parser α}
    {f : Option α → Parser β}, stops .endOfInput → (∀ seen, Any seen β last) → (∀ seen, Needs seen α p) →
    (∀ seen a, Any seen β (f a)) → (∀ finish, ∃ errors, f none finish [] = .failed [] errors) →
    Any seen β (Parser.look >>= fun t => if stops t.kind then last else recover p >>= f)

/-- The grades of all parsers of expressions and statements with some steps. -/
structure Throughout (Any Needs : List Token → (α : Type) → Parser α → Prop) (n : Nat) : Prop where
  expression : ∀ {seen} level, Needs seen Expr (expression n level)
  operand : ∀ {seen}, Needs seen Expr (operand n)
  carryOn : ∀ {seen} level left, Any seen Expr (carryOn n level left)
  connect : ∀ {seen} connective t left, t ∈ seen → Any seen Expr (connect n connective t left)
  list : ∀ {seen} close fault, Any seen (List Expr) (list n close fault)
  moreExpressions : ∀ {seen}, Any seen (List Expr) (moreExpressions n)
  pairs : ∀ {seen}, Any seen (List (Text × Expr)) (pairs n)
  functionLiteral : ∀ {seen} location, Any seen FunctionLiteral (functionLiteral n location)
  blockBody : ∀ {seen}, Any seen (List Stmt) (blockBody n)
  declaration : ∀ {seen} location, Any seen Stmt (declaration n location)
  initializer : ∀ {seen}, Any seen (Option Stmt) (initializer n)
  loopCondition : ∀ {seen}, Any seen (Option Expr) (loopCondition n)
  increment : ∀ {seen}, Any seen (Option Expr) (increment n)
  statement : ∀ {seen}, Needs seen Stmt (statement n)
  expressionStatement : ∀ {seen} location, Needs seen Stmt (expressionStatement n location)

/-- A block that is still open at the end of the source is an error. -/
theorem blockBody_nil (n : Nat) (finish : Location) : ∃ errors, blockBody n finish [] = .failed [] errors := by
  cases n with
  | zero => exact ⟨[], rfl⟩
  | succ n => exact ⟨_, rfl⟩

variable {Any Needs : List Token → (α : Type) → Parser α → Prop}
  {At : Token → List Token → (α : Type) → Parser α → Prop} {seen : List Token} {n : Nat}

namespace Graded

theorem statementEnd (h : Graded Any At Needs) (fault : GrammarFault) : Any seen Unit (statementEnd fault) := by
  refine h.look fun t => ?_
  split
  · exact h.skip
  · split
    · exact h.pure ()
    · exact h.bind (h.expect _ _) fun _ => h.pure ()

theorem propertyKey (h : Graded Any At Needs) : Needs seen Text propertyKey := by
  refine h.take fun t => ?_
  split
  case h_4 => exact .inr ⟨_, rfl⟩
  all_goals exact .inl (h.pure _)

theorem moreParameters (h : Graded Any At Needs) (n : Nat) : Any seen (List Text) (moreParameters n) := by
  induction n with
  | zero => exact h.weaken h.exhausted
  | succ n ih =>
    refine h.bind (h.accept _) fun found => ?_
    cases found with
    | none => exact h.pure _
    | some comma => exact h.bind (h.expect _ _) fun name => h.bind ih fun more => h.pure _

theorem parameters (h : Graded Any At Needs) (n : Nat) : Any seen (List Text) (parameters n) := by
  refine h.bind (h.accept _) fun found => ?_
  cases found with
  | some closing => exact h.pure _
  | none =>
    exact h.bind (h.expect _ _) fun name => h.bind (h.moreParameters n) fun more =>
      h.bind (h.expect _ _) fun _ => h.pure _

theorem zero (h : Graded Any At Needs) : Throughout Any Needs 0 where
  connect connective _ _ _ := by cases connective <;> exact h.weaken h.exhausted
  expression _ := h.exhausted
  operand := h.exhausted
  carryOn _ _ := h.weaken h.exhausted
  list _ _ := h.weaken h.exhausted
  moreExpressions := h.weaken h.exhausted
  pairs := h.weaken h.exhausted
  functionLiteral _ := h.weaken h.exhausted
  blockBody := h.weaken h.exhausted
  declaration _ := h.weaken h.exhausted
  initializer := h.weaken h.exhausted
  loopCondition := h.weaken h.exhausted
  increment := h.weaken h.exhausted
  statement := h.exhausted
  expressionStatement _ := h.exhausted

variable (h : Graded Any At Needs) (ih : Throughout Any Needs n)

include h ih

theorem operand : Needs seen Expr (operand (n + 1)) := by
  refine h.take fun t => ?_
  split
  case h_7 | h_8 => exact .inl (h.bind (h.weaken (ih.expression _)) fun _ => h.pure _)
  case h_9 => exact .inl (h.bind (h.weaken (ih.expression _)) fun _ => h.bind (h.expect _ _) fun _ => h.pure _)
  case h_10 => exact .inl (h.bind (ih.functionLiteral _) fun _ => h.pure _)
  case h_11 => exact .inl (h.bind (ih.list _ _) fun _ => h.pure _)
  case h_12 => exact .inl (h.bind ih.pairs fun _ => h.pure _)
  case h_13 => exact .inr ⟨_, rfl⟩
  all_goals exact .inl (h.pure _)

theorem carryOn (level : Nat) (left : Expr) : Any seen Expr (carryOn (n + 1) level left) := by
  refine h.look fun t => ?_
  split
  · exact h.pure _
  · split
    · exact h.bind h.skip fun _ => h.bind (ih.connect _ _ _ List.mem_cons_self) fun _ => ih.carryOn _ _
    · exact h.pure _

theorem connect (connective : Connective) {t : Token} (left : Expr) (known : t ∈ seen) :
    Any seen Expr (connect (n + 1) connective t left) := by
  have value (level : Nat) : Any seen Expr (Parser.expression n level) := h.weaken (ih.expression level)
  cases connective with
  | assign =>
    -- Whether the target is reported does not depend on the value.
    cases left with
    | identifier location name => exact h.bind (value 0) fun _ => h.pure _
    | _ => exact h.report known (ih.expression 0)
  | logical op => exact h.bind (value _) fun _ => h.pure _
  | binary op => exact h.bind (value _) fun _ => h.pure _
  | call => exact h.bind (ih.list _ _) fun _ => h.pure _
  | index => exact h.bind (value _) fun _ => h.bind (h.expect _ _) fun _ => h.pure _
  | member => exact h.bind (h.expect _ _) fun _ => h.pure _

theorem list (close : Token.Kind) (fault : GrammarFault) : Any seen (List Expr) (list (n + 1) close fault) := by
  refine h.bind (h.accept _) fun found => ?_
  cases found with
  | some closing => exact h.pure _
  | none =>
    exact h.bind (h.weaken (ih.expression _)) fun _ => h.bind ih.moreExpressions fun _ =>
      h.bind (h.expect _ _) fun _ => h.pure _

theorem moreExpressions : Any seen (List Expr) (moreExpressions (n + 1)) := by
  refine h.bind (h.accept _) fun found => ?_
  cases found with
  | none => exact h.pure _
  | some comma => exact h.bind (h.weaken (ih.expression _)) fun _ => h.bind ih.moreExpressions fun _ => h.pure _

theorem pairs : Any seen (List (Text × Expr)) (pairs (n + 1)) := by
  refine h.bind (h.accept _) fun found => ?_
  cases found with
  | some closing => exact h.pure _
  | none =>
    refine h.bind (h.weaken h.propertyKey) fun key => h.bind (h.expect _ _) fun _ =>
      h.bind (h.weaken (ih.expression _)) fun value => h.bind (h.accept _) fun comma => ?_
    cases comma with
    | some comma => exact h.bind ih.pairs fun _ => h.pure _
    | none => exact h.bind (h.expect _ _) fun _ => h.pure _

theorem functionLiteral (location : Location) : Any seen FunctionLiteral (functionLiteral (n + 1) location) :=
  h.bind (h.accept _) fun _ => h.bind (h.expect _ _) fun _ => h.bind (h.parameters n) fun _ =>
    h.bind (h.expect _ _) fun _ => h.bind ih.blockBody fun _ => h.pure _

theorem blockBody : Any seen (List Stmt) (blockBody (n + 1)) := by
  refine h.loop (fun kind => kind = .rightBrace ∨ kind = .endOfInput) (.inr rfl)
    (fun _ => h.bind (h.expect _ _) fun _ => h.pure _) (fun _ => ih.statement)
    (fun _ _ => h.bind ih.blockBody fun _ => h.pure _) ?_
  intro finish
  obtain ⟨errors, run⟩ := blockBody_nil n finish
  exact ⟨errors, bind_failed run⟩

theorem declaration (location : Location) : Any seen Stmt (declaration (n + 1) location) := by
  refine h.bind (h.expect _ _) fun name => h.bind (h.accept _) fun found => ?_
  cases found with
  | none => exact h.pure _
  | some equals => exact h.bind (h.weaken (ih.expression _)) fun _ => h.pure _

theorem initializer : Any seen (Option Stmt) (initializer (n + 1)) := by
  refine h.look fun t => ?_
  split
  · exact h.bind h.skip fun _ => h.pure _
  · split
    · exact h.bind h.skip fun _ => h.bind (ih.declaration _) fun _ => h.bind (h.expect _ _) fun _ => h.pure _
    · exact h.bind (h.weaken (ih.expression _)) fun _ => h.bind (h.expect _ _) fun _ => h.pure _

theorem loopCondition : Any seen (Option Expr) (loopCondition (n + 1)) := by
  refine h.bind (h.accept _) fun found => ?_
  cases found with
  | some semicolon => exact h.pure _
  | none => exact h.bind (h.weaken (ih.expression _)) fun _ => h.bind (h.expect _ _) fun _ => h.pure _

theorem increment : Any seen (Option Expr) (increment (n + 1)) := by
  refine h.bind (h.accept _) fun found => ?_
  cases found with
  | some closing => exact h.pure _
  | none => exact h.bind (h.weaken (ih.expression _)) fun _ => h.bind (h.expect _ _) fun _ => h.pure _

theorem statement : Needs seen Stmt (statement (n + 1)) := by
  have value {seen : List Token} : Any seen Expr (Parser.expression n 0) := h.weaken (ih.expression 0)
  have inner {seen : List Token} : Any seen Stmt (Parser.statement n) := h.weaken ih.statement
  refine h.needs_look (fun t kind => ?_) fun t => ?_
  · rw [kind]
    exact ih.expressionStatement _
  · split
    · exact h.at_skip (h.bind (ih.declaration _) fun _ => h.bind (h.statementEnd _) fun _ => h.pure _)
    · next word => exact h.at_function word (ih.functionLiteral _) (ih.expressionStatement _)
    · refine h.at_skip (h.bind (h.expect _ _) fun _ => h.bind value fun _ => h.bind (h.expect _ _) fun _ =>
        h.bind inner fun _ => h.bind (h.accept _) fun found => ?_)
      cases found with
      | none => exact h.pure _
      | some word => exact h.bind inner fun _ => h.pure _
    · exact h.at_skip (h.bind (h.expect _ _) fun _ => h.bind value fun _ => h.bind (h.expect _ _) fun _ =>
        h.bind inner fun _ => h.pure _)
    · exact h.at_skip (h.bind (h.expect _ _) fun _ => h.bind ih.initializer fun _ => h.bind ih.loopCondition fun _ =>
        h.bind ih.increment fun _ => h.bind inner fun _ => h.pure _)
    · refine h.at_skip (h.look fun next => ?_)
      split
      · exact h.bind (h.statementEnd _) fun _ => h.pure _
      · exact h.bind value fun _ => h.bind (h.statementEnd _) fun _ => h.pure _
    · exact h.at_skip (h.bind ih.blockBody fun _ => h.pure _)
    · exact h.at_skip (h.pure _)
    · exact h.begin (ih.expressionStatement _)

omit ih

/-- What is shown by single steps holds throughout, whatever the number of steps. -/
theorem throughout (n : Nat) : Throughout Any Needs n := by
  induction n with
  | zero => exact h.zero
  | succ n ih =>
    exact {
      expression := fun level => h.needs_bind ih.operand fun left => ih.carryOn level left
      operand := h.operand ih
      carryOn := h.carryOn ih
      connect := fun c _ => h.connect ih c
      list := h.list ih
      moreExpressions := h.moreExpressions ih
      pairs := h.pairs ih
      functionLiteral := h.functionLiteral ih
      blockBody := h.blockBody ih
      declaration := h.declaration ih
      initializer := h.initializer ih
      loopCondition := h.loopCondition ih
      increment := h.increment ih
      statement := h.statement ih
      expressionStatement := fun location => h.needs_bind (ih.expression _) fun _ =>
        h.bind (h.statementEnd _) fun _ => h.pure _ }

end Graded

end TinyScript.Parser
