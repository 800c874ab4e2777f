import TinyScript.Proofs.Parser.Progress

namespace TinyScript.Parser

/-- A property of parsers that is shown by their single steps. -/
structure Modular (C : List Token → (α : Type) → Parser α → Prop) : Prop where
  pure : ∀ {seen α} (a : α), C seen α (pure a)
  bind : ∀ {seen α β} {p : Parser α} {f : α → Parser β}, C seen α p → (∀ a, C seen β (f a)) → C seen β (p >>= f)
  exhausted : ∀ {seen α}, C seen α exhausted
  skip : ∀ {seen}, C seen Unit skip
  accept : ∀ {seen} kind, C seen (Option Token) (accept kind)
  expect : ∀ {seen} kind fault, C seen Token (expect kind fault)
  report : ∀ {seen t} fault, t ∈ seen → C seen Unit (report t fault)
  look : ∀ {seen β} {f : Token → Parser β}, (∀ t, C (t :: seen) β (f t)) → C seen β (look >>= f)
  /-- The token behind the next one is only looked at before the next one is taken. -/
  lookBehind : ∀ {seen β} {f : Token.Kind → Parser β}, (∀ kind, C seen β (f kind)) → (∀ kind, Passes (f kind)) →
    C seen β (lookBehind >>= f)
  /-- Only a token that has just been taken is rejected. -/
  take : ∀ {seen β} {fault : GrammarFault} {f : Token → Parser β},
    (∀ t, C seen β (f t) ∨ ∃ fault, f t = reject t fault) → C seen β (take fault >>= f)
  recover : ∀ {seen α} {p : Parser α}, C seen α p → C seen (Option α) (recover p)

/-- The property of every parser of expressions and statements with some steps. -/
structure Everywhere (C : List Token → (α : Type) → Parser α → Prop) (n : Nat) : Prop where
  expression : ∀ {seen} level, C seen Expr (expression n level)
  operand : ∀ {seen}, C seen Expr (operand n)
  carryOn : ∀ {seen} level left, C seen Expr (carryOn n level left)
  connect : ∀ {seen} connective t left, t ∈ seen → C seen Expr (connect n connective t left)
  list : ∀ {seen} close fault, C seen (List Expr) (list n close fault)
  moreExpressions : ∀ {seen}, C seen (List Expr) (moreExpressions n)
  pairs : ∀ {seen}, C seen (List (Text × Expr)) (pairs n)
  functionLiteral : ∀ {seen} location, C seen FunctionLiteral (functionLiteral n location)
  blockBody : ∀ {seen}, C seen (List Stmt) (blockBody n)
  declaration : ∀ {seen} location, C seen Stmt (declaration n location)
  initializer : ∀ {seen}, C seen (Option Stmt) (initializer n)
  loopCondition : ∀ {seen}, C seen (Option Expr) (loopCondition n)
  increment : ∀ {seen}, C seen (Option Expr) (increment n)
  statement : ∀ {seen}, C seen Stmt (statement n)
  expressionStatement : ∀ {seen} location, C seen Stmt (expressionStatement n location)

variable {C : List Token → (α : Type) → Parser α → Prop}

namespace Modular

/-- All three grades of the property are the same. -/
theorem graded (h : Modular C) : Graded C (fun _ => C) C where
  weaken := id
  begin := id
  pure := h.pure
  bind := h.bind
  needs_bind := h.bind
  exhausted := h.exhausted
  skip := h.skip
  accept := h.accept
  expect := h.expect
  take := h.take
  report known holds := h.bind holds fun _ => h.bind (h.report _ known) fun _ => h.pure _
  look := h.look
  needs_look _ later := h.look later
  at_skip later := h.bind h.skip fun _ => later
  at_function {_ n t} _ literal statement := by
    refine h.lookBehind (fun kind => ?_) fun kind => ?_
    · split
      · exact h.bind h.skip fun _ => h.bind literal fun _ => h.pure _
      · exact statement
    · exact .function ((forward n).functionLiteral t.location) ((forward n).expressionStatement t.location) kind
  loop _ _ _ _ _ _ last holds later _ := h.look fun t => by
    split
    · exact last _
    · exact h.bind (h.recover (holds _)) (later _)

theorem everywhere (h : Modular C) (n : Nat) : Everywhere C n :=
  have all := h.graded.throughout n
  { expression := all.expression
    operand := all.operand
    carryOn := all.carryOn
    connect := fun c t left known => all.connect c t left known
    list := all.list
    moreExpressions := all.moreExpressions
    pairs := all.pairs
    functionLiteral := all.functionLiteral
    blockBody := all.blockBody
    declaration := all.declaration
    initializer := all.initializer
    loopCondition := all.loopCondition
    increment := all.increment
    statement := all.statement
    expressionStatement := all.expressionStatement }

end Modular

end TinyScript.Parser
