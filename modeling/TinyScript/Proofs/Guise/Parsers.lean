import TinyScript.Program.Parser
import TinyScript.Proofs.Guise.Trees

namespace TinyScript

variable {α β γ δ : Type}

/-- The same diagnostic, at the line of a place that stands for another. -/
structure Diagnostic.Moved (place : Location → Location → Prop) (d d' : Diagnostic) : Prop where
  kind : d'.kind = d.kind
  line : ∃ l l', place l l' ∧ l.line = d.line ∧ l'.line = d'.line
  place : d'.place = d.place
  message : d'.message = d.message

namespace Guise

variable (g : Guise)

/-- The same token at another place. -/
structure Tokens (t t' : Token) : Prop where
  kind : t'.kind = t.kind
  literal : t'.literal = t.literal
  place : g.place t.location t'.location

/-- The same error at another place. -/
structure GrammarErrors (e e' : GrammarError) : Prop where
  found : g.Tokens e.found e'.found
  fault : e'.fault = e.fault

/-- The same reply, when the values are related. -/
inductive Replies (G : α → β → Prop) : Reply α → Reply β → Prop
  | ok {a : α} {b : β} {rest rest' : List Token} {errors errors' : List GrammarError} : G a b →
      List.Forall₂ g.Tokens rest rest' → List.Forall₂ g.GrammarErrors errors errors' →
      Replies G (.ok a rest errors) (.ok b rest' errors')
  | failed {rest rest' : List Token} {errors errors' : List GrammarError} : List.Forall₂ g.Tokens rest rest' →
      List.Forall₂ g.GrammarErrors errors errors' → Replies G (.failed rest errors) (.failed rest' errors')

/-- From the same tokens at other places the second parser reads what the first one reads. -/
def Parsers (G : α → β → Prop) (p : Parser α) (q : Parser β) : Prop :=
  ∀ finish finish' ts ts', g.place finish finish' → List.Forall₂ g.Tokens ts ts' →
    g.Replies G (p finish ts) (q finish' ts')

variable {g} {G : α → β → Prop} {H : γ → δ → Prop} {t t' : Token} {ts ts' : List Token} {l l' : Location} {e e' : Expr}
  {s s' : Stmt}

theorem Exprs.place (like : g.Exprs e e') : g.place e.location e'.location := by
  cases like with
  | lambda _ like =>
    cases like
    assumption
  | _ => assumption

theorem Stmts.place (like : g.Stmts s s') : g.place s.location s'.location := by
  cases like with
  | declaration _ like =>
    cases like
    assumption
  | _ => assumption

/-- A loop is written with other statements, which take their places from its parts. -/
theorem Stmts.forLoop {first first' : Option Stmt} {test test' step step' : Option Expr} (place : g.place l l')
    (initializer : Option.Rel g.Stmts first first') (condition : Option.Rel g.Exprs test test')
    (increment : Option.Rel g.Exprs step step') (body : g.Stmts s s') :
    g.Stmts (.forLoop l first test step s) (.forLoop l' first' test' step' s') := by
  have tested : g.Exprs (test.getD (.boolean l true)) (test'.getD (.boolean l' true)) := by
    cases condition with
    | some like => exact like
    | none => exact .boolean place
  cases increment with
  | some like =>
    have round := Like.block body.place (.stmts body (.stmts (.expression like.place like) .noStmts))
    cases initializer with
    | some first => exact .block place (.stmts first (.stmts (.whileLoop place tested round) .noStmts))
    | none => exact .whileLoop place tested round
  | none =>
    cases initializer with
    | some first => exact .block place (.stmts first (.stmts (.whileLoop place tested body) .noStmts))
    | none => exact .whileLoop place tested body

theorem Tokens.finish (place : g.place l l') : g.Tokens (.finish l) (.finish l') := ⟨rfl, rfl, place⟩

theorem resync (tokens : List.Forall₂ g.Tokens ts ts') :
    List.Forall₂ g.Tokens (TinyScript.resync ts) (TinyScript.resync ts') := by
  induction tokens with
  | nil => exact .nil
  | cons first more ih =>
    rw [TinyScript.resync, TinyScript.resync, first.kind]
    split
    · exact .cons first more
    · split
      · exact more
      · exact ih

theorem resyncBehind (taken : g.Tokens t t') (tokens : List.Forall₂ g.Tokens ts ts') :
    List.Forall₂ g.Tokens (TinyScript.resyncBehind t ts) (TinyScript.resyncBehind t' ts') := by
  rw [TinyScript.resyncBehind, TinyScript.resyncBehind, taken.kind]
  split
  · exact tokens
  · exact resync tokens

namespace Parsers

theorem bind {p : Parser α} {q : Parser β} {f : α → Parser γ} {h : β → Parser δ} (first : g.Parsers G p q)
    (later : ∀ a b, G a b → g.Parsers H (f a) (h b)) : g.Parsers H (p >>= f) (q >>= h) := by
  intro finish finish' ts ts' place tokens
  have both := first finish finish' ts ts' place tokens
  show g.Replies H (Parser.bind p f finish ts) (Parser.bind q h finish' ts')
  unfold Parser.bind
  generalize p finish ts = r at both
  generalize q finish' ts' = r' at both
  cases both with
  | ok related rest errors =>
    have both := later _ _ related finish finish' _ _ place rest
    dsimp only
    revert both
    generalize f _ finish _ = r
    generalize h _ finish' _ = r'
    rintro (⟨related, rest, more⟩ | ⟨rest, more⟩)
    · exact .ok related rest (List.rel_append errors more)
    · exact .failed rest (List.rel_append errors more)
  | failed rest errors => exact .failed rest errors

theorem pure {a : α} {b : β} (related : G a b) : g.Parsers G (Pure.pure a : Parser α) (Pure.pure b) :=
  fun _ _ _ _ _ tokens => .ok related tokens .nil

theorem exhausted : g.Parsers G (Parser.exhausted : Parser α) (Parser.exhausted : Parser β) :=
  fun _ _ _ _ _ _ => .failed .nil .nil

theorem skip : g.Parsers (fun _ _ => True) Parser.skip Parser.skip := by
  intro _ _ _ _ _ tokens
  cases tokens with
  | nil => exact .ok trivial .nil .nil
  | cons _ more => exact .ok trivial more .nil

theorem look : g.Parsers g.Tokens Parser.look Parser.look := by
  intro _ _ _ _ place tokens
  cases tokens with
  | nil => exact .ok (.finish place) .nil .nil
  | cons first more => exact .ok first (.cons first more) .nil

theorem lookBehind : g.Parsers (fun kind kind' => kind' = kind) Parser.lookBehind Parser.lookBehind := by
  intro _ _ _ _ place tokens
  match tokens with
  | .nil => exact .ok rfl .nil .nil
  | .cons first .nil => exact .ok rfl (.cons first .nil) .nil
  | .cons first (.cons second more) => exact .ok second.kind (.cons first (.cons second more)) .nil

theorem take (fault : GrammarFault) : g.Parsers g.Tokens (Parser.take fault) (Parser.take fault) := by
  intro _ _ _ _ place tokens
  cases tokens with
  | nil => exact .failed .nil (.cons ⟨.finish place, rfl⟩ .nil)
  | cons first more => exact .ok first more .nil

theorem accept (kind : Token.Kind) : g.Parsers (Option.Rel g.Tokens) (Parser.accept kind) (Parser.accept kind) := by
  intro _ _ _ _ _ tokens
  cases tokens with
  | nil => exact .ok .none .nil .nil
  | cons first more =>
    rw [Parser.accept, Parser.accept]
    rw [first.kind]
    split
    · exact .ok (.some first) more .nil
    · exact .ok .none (.cons first more) .nil

theorem expect (kind : Token.Kind) (fault : GrammarFault) :
    g.Parsers g.Tokens (Parser.expect kind fault) (Parser.expect kind fault) := by
  intro _ _ _ _ place tokens
  cases tokens with
  | nil => exact .failed .nil (.cons ⟨.finish place, rfl⟩ .nil)
  | cons first more =>
    rw [Parser.expect, Parser.expect]
    rw [first.kind]
    split
    · exact .ok first more .nil
    · exact .failed (resync (.cons first more)) (.cons ⟨first, rfl⟩ .nil)

theorem reject (taken : g.Tokens t t') (fault : GrammarFault) :
    g.Parsers G (Parser.reject t fault : Parser α) (Parser.reject t' fault : Parser β) :=
  fun _ _ _ _ _ tokens => .failed (resyncBehind taken tokens) (.cons ⟨taken, rfl⟩ .nil)

theorem report (found : g.Tokens t t') (fault : GrammarFault) :
    g.Parsers (fun _ _ => True) (Parser.report t fault) (Parser.report t' fault) :=
  fun _ _ _ _ _ tokens => .ok trivial tokens (.cons ⟨found, rfl⟩ .nil)

theorem recover {p : Parser α} {q : Parser β} (same : g.Parsers G p q) :
    g.Parsers (Option.Rel G) (Parser.recover p) (Parser.recover q) := by
  intro finish finish' ts ts' place tokens
  have both := same finish finish' ts ts' place tokens
  unfold Parser.recover
  generalize p finish ts = r at both
  generalize q finish' ts' = r' at both
  cases both with
  | ok related rest errors => exact .ok (.some related) rest errors
  | failed rest errors => exact .ok .none rest errors

theorem statementEnd (fault : GrammarFault) :
    g.Parsers (fun _ _ => True) (Parser.statementEnd fault) (Parser.statementEnd fault) := by
  refine look.bind fun t t' found => ?_
  rw [found.kind]
  split
  · exact skip
  · split
    · exact pure trivial
    · exact (expect _ _).bind fun _ _ _ => pure trivial

theorem propertyKey : g.Parsers (fun key key' => key' = key) Parser.propertyKey Parser.propertyKey := by
  refine (take _).bind fun t t' taken => ?_
  rw [taken.kind]
  split
  · exact pure taken.literal
  · exact pure rfl
  · exact pure rfl
  · exact reject taken _

variable (names : ∀ a, g.name a a)

include names

theorem moreParameters (n : Nat) :
    g.Parsers (List.Forall₂ g.name) (Parser.moreParameters n) (Parser.moreParameters n) := by
  induction n with
  | zero => exact exhausted
  | succ n ih =>
    refine (accept _).bind ?_
    rintro _ _ (⟨_⟩ | _)
    · refine (expect _ _).bind fun t t' taken => ih.bind fun more more' same => pure ?_
      rw [taken.literal]
      exact .cons (names _) same
    · exact pure .nil

theorem parameters (n : Nat) : g.Parsers (List.Forall₂ g.name) (Parser.parameters n) (Parser.parameters n) := by
  refine (accept _).bind ?_
  rintro _ _ (⟨_⟩ | _)
  · exact pure .nil
  · refine (expect _ _).bind fun t t' taken => (moreParameters names n).bind fun more more' same =>
      (expect _ _).bind fun _ _ _ => pure ?_
    rw [taken.literal]
    exact .cons (names _) same

end Parsers

/-- Every parser of expressions and statements with some steps reads alike. -/
structure ReadAlike (g : Guise) (n : Nat) : Prop where
  expression : ∀ level, g.Parsers g.Exprs (Parser.expression n level) (Parser.expression n level)
  operand : g.Parsers g.Exprs (Parser.operand n) (Parser.operand n)
  carryOn : ∀ level left left', g.Exprs left left' →
    g.Parsers g.Exprs (Parser.carryOn n level left) (Parser.carryOn n level left')
  connect : ∀ connective t t' left left', g.Tokens t t' → g.Exprs left left' →
    g.Parsers g.Exprs (Parser.connect n connective t left) (Parser.connect n connective t' left')
  list : ∀ close fault, g.Parsers g.Lists (Parser.list n close fault) (Parser.list n close fault)
  moreExpressions : g.Parsers g.Lists (Parser.moreExpressions n) (Parser.moreExpressions n)
  pairs : g.Parsers g.Pairs (Parser.pairs n) (Parser.pairs n)
  functionLiteral : ∀ l l', g.place l l' →
    g.Parsers g.Functions (Parser.functionLiteral n l) (Parser.functionLiteral n l')
  blockBody : g.Parsers g.Bodies (Parser.blockBody n) (Parser.blockBody n)
  declaration : ∀ l l', g.place l l' → g.Parsers g.Stmts (Parser.declaration n l) (Parser.declaration n l')
  initializer : g.Parsers (Option.Rel g.Stmts) (Parser.initializer n) (Parser.initializer n)
  loopCondition : g.Parsers (Option.Rel g.Exprs) (Parser.loopCondition n) (Parser.loopCondition n)
  increment : g.Parsers (Option.Rel g.Exprs) (Parser.increment n) (Parser.increment n)
  statement : g.Parsers g.Stmts (Parser.statement n) (Parser.statement n)
  expressionStatement : ∀ l l', g.place l l' →
    g.Parsers g.Stmts (Parser.expressionStatement n l) (Parser.expressionStatement n l')

namespace ReadAlike

variable {n : Nat} {g : Guise} {l l' : Location} {e e' : Expr} {t t' : Token}

open Parsers

theorem zero : g.ReadAlike 0 where
  connect connective _ _ _ _ _ _ := by cases connective <;> exact exhausted
  expression _ := exhausted
  operand := exhausted
  carryOn _ _ _ _ := exhausted
  list _ _ := exhausted
  moreExpressions := exhausted
  pairs := exhausted
  functionLiteral _ _ _ := exhausted
  blockBody := exhausted
  declaration _ _ _ := exhausted
  initializer := exhausted
  loopCondition := exhausted
  increment := exhausted
  statement := exhausted
  expressionStatement _ _ _ := exhausted

theorem carryOn_succ (ih : g.ReadAlike n) (level : Nat) (left : g.Exprs e e') :
    g.Parsers g.Exprs (Parser.carryOn (n + 1) level e) (Parser.carryOn (n + 1) level e') := by
  refine look.bind fun t t' found => ?_
  rw [found.kind]
  split
  · exact pure left
  · split
    · exact skip.bind fun _ _ _ => (ih.connect _ _ _ _ _ found left).bind fun _ _ whole => ih.carryOn _ _ _ whole
    · exact pure left

theorem list_succ (ih : g.ReadAlike n) (close : Token.Kind) (fault : GrammarFault) :
    g.Parsers g.Lists (Parser.list (n + 1) close fault)
      (Parser.list (n + 1) close fault) := by
  refine (accept _).bind ?_
  rintro _ _ (⟨_⟩ | _)
  · exact pure .noExprs
  · exact (ih.expression _).bind fun _ _ first => ih.moreExpressions.bind fun _ _ more =>
      (expect _ _).bind fun _ _ _ => pure (.exprs first more)

theorem moreExpressions_succ (ih : g.ReadAlike n) :
    g.Parsers g.Lists (Parser.moreExpressions (n + 1))
      (Parser.moreExpressions (n + 1)) := by
  refine (accept _).bind ?_
  rintro _ _ (⟨_⟩ | _)
  · exact (ih.expression _).bind fun _ _ next => ih.moreExpressions.bind fun _ _ more => pure (.exprs next more)
  · exact pure .noExprs

theorem pairs_succ (ih : g.ReadAlike n) :
    g.Parsers g.Pairs (Parser.pairs (n + 1)) (Parser.pairs (n + 1)) := by
  refine (accept _).bind ?_
  rintro _ _ (⟨_⟩ | _)
  · exact pure .noPairs
  · refine propertyKey.bind ?_
    rintro key _ rfl
    refine (expect _ _).bind fun _ _ _ => (ih.expression _).bind fun _ _ value => (accept _).bind ?_
    rintro _ _ (⟨_⟩ | _)
    · exact ih.pairs.bind fun _ _ more => pure (.pairs value more)
    · exact (expect _ _).bind fun _ _ _ => pure (.pairs value .noPairs)

theorem blockBody_succ (ih : g.ReadAlike n) :
    g.Parsers g.Bodies (Parser.blockBody (n + 1)) (Parser.blockBody (n + 1)) := by
  refine look.bind fun t t' found => ?_
  rw [found.kind]
  split
  · exact (expect _ _).bind fun _ _ _ => pure .noStmts
  · refine ih.statement.recover.bind fun _ _ first => ih.blockBody.bind fun _ _ more => pure ?_
    cases first with
    | some first => exact .stmts first more
    | none => exact more

theorem initializer_succ (ih : g.ReadAlike n) :
    g.Parsers (Option.Rel g.Stmts) (Parser.initializer (n + 1)) (Parser.initializer (n + 1)) := by
  refine look.bind fun t t' found => ?_
  rw [found.kind]
  split
  · exact skip.bind fun _ _ _ => pure .none
  · split
    · exact skip.bind fun _ _ _ => (ih.declaration _ _ found.place).bind fun _ _ first =>
        (expect _ _).bind fun _ _ _ => pure (.some first)
    · exact (ih.expression _).bind fun _ _ value => (expect _ _).bind fun _ _ _ =>
        pure (.some (.expression found.place value))

theorem loopCondition_succ (ih : g.ReadAlike n) :
    g.Parsers (Option.Rel g.Exprs) (Parser.loopCondition (n + 1)) (Parser.loopCondition (n + 1)) := by
  refine (accept _).bind ?_
  rintro _ _ (⟨_⟩ | _)
  · exact pure .none
  · exact (ih.expression _).bind fun _ _ condition => (expect _ _).bind fun _ _ _ => pure (.some condition)

theorem increment_succ (ih : g.ReadAlike n) :
    g.Parsers (Option.Rel g.Exprs) (Parser.increment (n + 1)) (Parser.increment (n + 1)) := by
  refine (accept _).bind ?_
  rintro _ _ (⟨_⟩ | _)
  · exact pure .none
  · exact (ih.expression _).bind fun _ _ step => (expect _ _).bind fun _ _ _ => pure (.some step)

theorem expressionStatement_succ (ih : g.ReadAlike n) (place : g.place l l') :
    g.Parsers g.Stmts (Parser.expressionStatement (n + 1) l) (Parser.expressionStatement (n + 1) l') :=
  (ih.expression _).bind fun _ _ value => (statementEnd _).bind fun _ _ _ => pure (.expression place value)

theorem connect_succ (ih : g.ReadAlike n) (connective : Connective) (found : g.Tokens t t') (left : g.Exprs e e') :
    g.Parsers g.Exprs (Parser.connect (n + 1) connective t e) (Parser.connect (n + 1) connective t' e') := by
  cases connective with
  | assign =>
    refine (ih.expression _).bind fun _ _ value => ?_
    cases left with
    | identifier place name => exact pure (.assign place name value)
    | _ => exact (report found _).bind fun _ _ _ => pure (by constructor <;> assumption)
  | logical op => exact (ih.expression _).bind fun _ _ right => pure (.logical found.place left right)
  | binary op => exact (ih.expression _).bind fun _ _ right => pure (.binary found.place left right)
  | call => exact (ih.list _ _).bind fun _ _ arguments => pure (.call found.place left arguments)
  | index =>
    exact (ih.expression _).bind fun _ _ inside => (expect _ _).bind fun _ _ _ => pure (.index found.place left inside)
  | member =>
    refine (expect _ _).bind fun t t' taken => pure ?_
    rw [taken.literal]
    exact .index found.place left (.string taken.place)

variable (names : ∀ a, g.name a a)

include names

theorem operand_succ (ih : g.ReadAlike n) : g.Parsers g.Exprs (Parser.operand (n + 1)) (Parser.operand (n + 1)) := by
  refine (take _).bind fun t t' taken => ?_
  rw [taken.kind, taken.literal]
  split
  · exact pure (.identifier taken.place (names _))
  · exact pure (.number taken.place)
  · exact pure (.string taken.place)
  · exact pure (.boolean taken.place)
  · exact pure (.boolean taken.place)
  · exact pure (.null taken.place)
  · exact (ih.expression _).bind fun _ _ operand => pure (.unary taken.place operand)
  · exact (ih.expression _).bind fun _ _ operand => pure (.unary taken.place operand)
  · exact (ih.expression _).bind fun _ _ inside => (expect _ _).bind fun _ _ _ => pure inside
  · exact (ih.functionLiteral _ _ taken.place).bind fun f f' like => pure (.lambda (fun _ => names f.name) like)
  · exact (ih.list _ _).bind fun _ _ elements => pure (.array taken.place elements)
  · exact ih.pairs.bind fun _ _ pairs => pure (.object taken.place pairs)
  · exact reject taken _

theorem functionLiteral_succ (ih : g.ReadAlike n) (place : g.place l l') :
    g.Parsers g.Functions (Parser.functionLiteral (n + 1) l)
      (Parser.functionLiteral (n + 1) l') := by
  refine (accept _).bind fun name name' found => ?_
  have same : name'.map (·.literal) = name.map (·.literal) := by
    cases found with
    | some found => exact congrArg some found.literal
    | none => rfl
  have known : name'.isSome = name.isSome := by simpa using congrArg Option.isSome same
  rw [same, known]
  exact (expect _ _).bind fun _ _ _ => (parameters names n).bind fun _ _ parameters =>
    (expect _ _).bind fun _ _ brace => ih.blockBody.bind fun _ _ body =>
      pure (.function place parameters brace.place body)

theorem declaration_succ (ih : g.ReadAlike n) (place : g.place l l') :
    g.Parsers g.Stmts (Parser.declaration (n + 1) l) (Parser.declaration (n + 1) l') := by
  refine (expect _ _).bind fun t t' taken => (accept _).bind ?_
  rw [taken.literal]
  rintro _ _ (⟨_⟩ | _)
  · exact (ih.expression _).bind fun _ _ value => pure (.var place (names _) value)
  · exact pure (.varNull place (names _))

theorem statement_succ (ih : g.ReadAlike n) :
    g.Parsers g.Stmts (Parser.statement (n + 1)) (Parser.statement (n + 1)) := by
  refine look.bind fun t t' found => ?_
  rw [found.kind]
  split
  · exact skip.bind fun _ _ _ => (ih.declaration _ _ found.place).bind fun _ _ declared =>
      (statementEnd _).bind fun _ _ _ => pure declared
  · refine lookBehind.bind ?_
    rintro kind _ rfl
    split
    · exact skip.bind fun _ _ _ => (ih.functionLiteral _ _ found.place).bind fun f _ like =>
        pure (.declaration (names f.name) like)
    · exact ih.expressionStatement _ _ found.place
  · refine skip.bind fun _ _ _ => (expect _ _).bind fun _ _ _ => (ih.expression _).bind fun _ _ condition =>
      (expect _ _).bind fun _ _ _ => ih.statement.bind fun _ _ consequence => (accept _).bind ?_
    rintro _ _ (⟨_⟩ | _)
    · exact ih.statement.bind fun _ _ alternative => pure (.ifElse found.place condition consequence alternative)
    · exact pure (.ifOnly found.place condition consequence)
  · exact skip.bind fun _ _ _ => (expect _ _).bind fun _ _ _ => (ih.expression _).bind fun _ _ condition =>
      (expect _ _).bind fun _ _ _ => ih.statement.bind fun _ _ body => pure (.whileLoop found.place condition body)
  · exact skip.bind fun _ _ _ => (expect _ _).bind fun _ _ _ => ih.initializer.bind fun _ _ first =>
      ih.loopCondition.bind fun _ _ condition => ih.increment.bind fun _ _ step => ih.statement.bind fun _ _ body =>
        pure (Stmts.forLoop found.place first condition step body)
  · refine skip.bind fun _ _ _ => look.bind fun next next' behind => ?_
    rw [behind.kind]
    split
    · exact (statementEnd _).bind fun _ _ _ => pure (.returnsNull found.place)
    · exact (ih.expression _).bind fun _ _ value => (statementEnd _).bind fun _ _ _ => pure (.returns found.place value)
  · exact skip.bind fun _ _ _ => ih.blockBody.bind fun _ _ body => pure (.block found.place body)
  · exact skip.bind fun _ _ _ => pure (.block found.place .noStmts)
  · exact ih.expressionStatement _ _ found.place

theorem all (n : Nat) : g.ReadAlike n := by
  induction n with
  | zero => exact zero
  | succ n ih =>
    exact {
      expression := fun level => ih.operand.bind fun left left' like => ih.carryOn level left left' like
      operand := operand_succ names ih
      carryOn := fun level _ _ => carryOn_succ ih level
      connect := fun connective _ _ _ _ => connect_succ ih connective
      list := list_succ ih
      moreExpressions := moreExpressions_succ ih
      pairs := pairs_succ ih
      functionLiteral := fun _ _ => functionLiteral_succ names ih
      blockBody := blockBody_succ ih
      declaration := fun _ _ => declaration_succ names ih
      initializer := initializer_succ ih
      loopCondition := loopCondition_succ ih
      increment := increment_succ ih
      statement := statement_succ names ih
      expressionStatement := fun _ _ => expressionStatement_succ ih }

theorem statements (n : Nat) : g.Parsers g.Bodies (Parser.statements n) (Parser.statements n) := by
  induction n with
  | zero => exact exhausted
  | succ n ih =>
    refine look.bind fun t t' found => ?_
    rw [found.kind]
    split
    · exact pure .noStmts
    · refine (all names n).statement.recover.bind fun _ _ first => ih.bind fun _ _ more => pure ?_
      cases first with
      | some first => exact .stmts first more
      | none => exact more

end ReadAlike

theorem GrammarErrors.diagnostic {g : Guise} {e e' : GrammarError} (errors : g.GrammarErrors e e') :
    Diagnostic.Moved g.place e.diagnostic e'.diagnostic where
  kind := rfl
  line := ⟨_, _, errors.found.place, rfl, rfl⟩
  place := by rw [GrammarError.diagnostic, GrammarError.diagnostic, errors.found.kind, errors.found.literal]
  message := congrArg GrammarFault.message errors.fault

/-- The same tokens at other places are the same program at other places, or have the same errors there. -/
theorem ofTokens {g : Guise} {l l' : Location} {ts ts' : List Token} (names : ∀ a, g.name a a) (place : g.place l l')
    (tokens : List.Forall₂ g.Tokens ts ts') :
    g.Bodies (Program.ofTokens ts l).1.statements (Program.ofTokens ts' l').1.statements ∧
      List.Forall₂ (Diagnostic.Moved g.place) (Program.ofTokens ts l).2 (Program.ofTokens ts' l').2 := by
  have diagnostics {errors errors' : List GrammarError} (same : List.Forall₂ g.GrammarErrors errors errors') :
      List.Forall₂ (Diagnostic.Moved g.place) (errors.map (·.diagnostic)) (errors'.map (·.diagnostic)) :=
    List.forall₂_map_left_iff.2 (List.forall₂_map_right_iff.2 (same.imp fun _ _ => GrammarErrors.diagnostic))
  have budget : Parser.budget ts' = Parser.budget ts := by rw [Parser.budget, Parser.budget, tokens.length_eq]
  have both := ReadAlike.statements names (Parser.budget ts) l l' ts ts' place tokens
  unfold Program.ofTokens
  rw [budget]
  generalize Parser.statements (Parser.budget ts) l ts = r at both
  generalize Parser.statements (Parser.budget ts) l' ts' = r' at both
  cases both with
  | ok body _ errors => exact ⟨body, diagnostics errors⟩
  | failed _ errors => exact ⟨.noStmts, diagnostics errors⟩

end Guise

end TinyScript
