import TinyScript.Proofs.Parser.Progress
import TinyScript.Proofs.Printer.Tree

namespace TinyScript

/-- All tokens can stand in a source. -/
def AllLexed (source : List Token) : Prop := ∀ t ∈ source, t.Lexed

theorem AllLexed.suffix {source rest : List Token} (lexed : AllLexed source) (suffix : rest <:+ source) :
    AllLexed rest :=
  fun t mem => lexed t (suffix.subset mem)

theorem IsName.ne_nil {name : Text} (isName : IsName name) : name ≠ [] := by
  rintro rfl
  obtain ⟨⟨_, _, none, _⟩, _⟩ := isName
  cases none

namespace Parser

variable {α β : Type} {p : Parser α} {f : α → Parser β} {P : α → List Token → Prop} {Q : β → List Token → Prop}
  {finish : Location} {source : List Token}

/-- From tokens that can stand in a source the parser makes what is described, perhaps with errors. -/
def Makes (P : α → List Token → Prop) (p : Parser α) (finish : Location) (source : List Token) : Prop :=
  AllLexed source → AllLexed (p finish source).rest ∧ ∀ a rest errors, p finish source = .ok a rest errors → P a rest

namespace Makes

theorem bind (first : Makes P p finish source) (later : ∀ a mid, P a mid → Makes Q (f a) finish mid) :
    Makes Q (p >>= f) finish source := by
  intro lexed
  obtain ⟨left, made⟩ := first lexed
  cases run : p finish source with
  | ok a mid errors =>
    rw [run] at left
    rw [bind_ok run, Reply.rest_behind]
    obtain ⟨left, made⟩ := later a mid (made a mid errors run) left
    refine ⟨left, fun b rest errors reply => ?_⟩
    obtain ⟨_, reply, _⟩ := Reply.behind_eq_ok_iff.1 reply
    exact made b rest _ reply
  | failed resume errors =>
    rw [run] at left
    rw [bind_failed run]
    exact ⟨left, fun _ _ _ reply => by cases reply⟩

/-- A single step that only goes forward. -/
theorem of_advances (advances : Advances p)
    (made : AllLexed source → ∀ a rest errors, p finish source = .ok a rest errors → P a rest) :
    Makes P p finish source :=
  fun lexed => ⟨lexed.suffix (advances finish source), made lexed⟩

theorem pure {b : β} (holds : Q b source) : Makes Q (pure b) finish source :=
  of_advances (.pure b) (by rintro _ _ _ _ ⟨⟩; exact holds)

theorem exhausted : Makes P (exhausted : Parser α) finish source :=
  of_advances Consumes.exhausted.advances fun _ _ _ _ run => by cases run

theorem reject {t : Token} {fault : GrammarFault} : Makes P (reject t fault) finish source :=
  of_advances (.reject t fault) fun _ _ _ _ run => by cases run

theorem look {f : Token → Parser β} (later : ∀ t, Makes Q (f t) finish source) :
    Makes Q (Parser.look >>= f) finish source :=
  .bind (P := fun _ rest => rest = source) (of_advances .look (by rintro _ _ _ _ ⟨⟩; rfl))
    (by rintro t _ rfl; exact later t)

theorem lookBehind {f : Token.Kind → Parser β} (later : Makes Q (f (kindAt source.tail)) finish source) :
    Makes Q (Parser.lookBehind >>= f) finish source := by
  have same : (source.tail.head?.getD (.finish finish)).kind = kindAt source.tail := look_kind
  rw [← same] at later
  exact .bind (P := fun kind rest => kind = (source.tail.head?.getD (.finish finish)).kind ∧ rest = source)
    (of_advances .lookBehind (by rintro _ _ _ _ ⟨⟩; exact ⟨rfl, rfl⟩)) (by rintro _ _ ⟨rfl, rfl⟩; exact later)

theorem skip {f : Unit → Parser β} (later : Makes Q (f ()) finish source.tail) :
    Makes Q (Parser.skip >>= f) finish source :=
  .bind (P := fun _ rest => rest = source.tail) (of_advances .skip (by rintro _ _ _ _ ⟨⟩; rfl))
    (by rintro _ _ rfl; exact later)

theorem report {t : Token} {fault : GrammarFault} {f : Unit → Parser β} (later : Makes Q (f ()) finish source) :
    Makes Q (Parser.report t fault >>= f) finish source :=
  .bind (P := fun _ rest => rest = source) (of_advances (.report t fault) (by rintro _ _ _ _ ⟨⟩; rfl))
    (by rintro _ _ rfl; exact later)

theorem take {fault : GrammarFault} {f : Token → Parser β} (later : ∀ t mid, t.Lexed → Makes Q (f t) finish mid) :
    Makes Q (Parser.take fault >>= f) finish source := by
  refine .bind (P := fun t _ => t.Lexed) (of_advances (Consumes.take fault).advances ?_) later
  intro lexed t rest errors run
  cases source with
  | nil => cases run
  | cons u source =>
    cases run
    exact lexed t List.mem_cons_self

theorem expect {kind : Token.Kind} {fault : GrammarFault} {f : Token → Parser β}
    (later : ∀ t mid, t.kind = kind → t.Lexed → Makes Q (f t) finish mid) :
    Makes Q (Parser.expect kind fault >>= f) finish source := by
  refine .bind (P := fun t _ => t.kind = kind ∧ t.Lexed) (of_advances (.expect kind fault) ?_)
    fun t mid taken => later t mid taken.1 taken.2
  intro lexed t rest errors run
  obtain ⟨-, same, rfl⟩ := expect_eq_ok_iff.1 run
  exact ⟨same, lexed t List.mem_cons_self⟩

theorem accept {kind : Token.Kind} {f : Option Token → Parser β}
    (found : ∀ t mid, source = t :: mid → t.kind = kind → t.Lexed → Makes Q (f (some t)) finish mid)
    (missing : (source ≠ [] → kindAt source ≠ kind) → Makes Q (f none) finish source) :
    Makes Q (Parser.accept kind >>= f) finish source := by
  refine .bind (P := fun a mid => AllLexed source ∧ ∃ errors, Parser.accept kind finish source = .ok a mid errors)
    (of_advances (.accept kind) fun lexed _ _ errors run => ⟨lexed, errors, run⟩) ?_
  rintro a mid ⟨lexed, errors, run⟩
  obtain ⟨-, ⟨t, rfl, same, rfl⟩ | ⟨rfl, rfl, other⟩⟩ := accept_eq_ok_iff.1 run
  · exact found t mid rfl same (lexed t List.mem_cons_self)
  · exact missing other

theorem recover {f : Option α → Parser β} (first : Makes P p finish source)
    (later : ∀ a mid, (∀ b ∈ a, P b mid) → Makes Q (f a) finish mid) :
    Makes Q (Parser.recover p >>= f) finish source := by
  refine .bind (P := fun a mid => ∀ b ∈ a, P b mid) (fun lexed => ?_) later
  obtain ⟨left, made⟩ := first lexed
  refine ⟨by rwa [recover_rest], fun a mid errors run => ?_⟩
  cases reply : p finish source with
  | ok b rest found =>
    rw [recover_eq_some reply] at run
    cases run
    rintro _ ⟨⟩
    exact made b _ _ reply
  | failed resume found =>
    rw [recover_eq_none reply] at run
    cases run
    exact fun _ none => by cases none

theorem statementEnd {fault : GrammarFault} {b : β} (holds : ∀ rest, Q b rest) :
    Makes Q (Parser.statementEnd fault >>= fun _ => Pure.pure b) finish source :=
  .bind (P := fun _ _ => True) (of_advances (.statementEnd fault) fun _ _ _ _ _ => trivial)
    fun _ mid _ => .pure (holds mid)

theorem propertyKey {f : Text → Parser β} (later : ∀ key mid, Makes Q (f key) finish mid) :
    Makes Q (Parser.propertyKey >>= f) finish source :=
  .bind (P := fun _ _ => True) (of_advances Consumes.propertyKey.advances fun _ _ _ _ _ => trivial)
    fun key mid _ => later key mid

theorem moreParameters (n : Nat) : ∀ {source}, Makes (fun names _ => ∀ name ∈ names, IsName name)
    (moreParameters n) finish source := by
  induction n with
  | zero => exact exhausted
  | succ n ih =>
    intro source
    refine .accept (fun comma mid _ _ _ => .expect fun t last isName lexed => .bind ih ?_) fun _ => .pure (by simp)
    intro more rest others
    exact .pure (List.forall_mem_cons.2 ⟨lexed.name isName, others⟩)

theorem parameters (n : Nat) : Makes (fun names _ => ∀ name ∈ names, IsName name) (parameters n) finish source := by
  refine .accept (fun closing rest _ _ _ => .pure (by simp)) fun _ => .expect fun t mid isName lexed =>
    .bind (.moreParameters n) ?_
  intro more rest others
  exact .expect fun _ _ _ _ => .pure (List.forall_mem_cons.2 ⟨lexed.name isName, others⟩)

end Makes

variable {n : Nat}

/-- What the parsers make on some number of steps. -/
structure Constructs (n : Nat) : Prop where
  expression : ∀ {finish source} level, Makes (fun e _ => Written (.expr e)) (expression n level) finish source
  operand : ∀ {finish source}, Makes (fun e _ => Written (.expr e)) (operand n) finish source
  carryOn : ∀ {finish source} level {left}, Written (.expr left) →
    Makes (fun e _ => Written (.expr e)) (carryOn n level left) finish source
  connect : ∀ {finish source} connective t {left}, Written (.expr left) →
    Makes (fun e _ => Written (.expr e)) (connect n connective t left) finish source
  list : ∀ {finish source} close fault,
    Makes (fun es _ => ∀ e ∈ es, Written (.expr e)) (list n close fault) finish source
  moreExpressions : ∀ {finish source},
    Makes (fun es _ => ∀ e ∈ es, Written (.expr e)) (moreExpressions n) finish source
  pairs : ∀ {finish source}, Makes (fun ps _ => ∀ p ∈ ps, Written (.expr p.2)) (pairs n) finish source
  functionLiteral : ∀ {finish source} location,
    Makes (fun literal _ => Written (.function literal) ∧ (kindAt source = .identifier → literal.name ≠ []))
      (functionLiteral n location) finish source
  blockBody : ∀ {finish source}, Makes (fun body _ => ∀ s ∈ body, Written (.stmt s)) (blockBody n) finish source
  declaration : ∀ {finish source} location,
    Makes (fun s _ => Written (.stmt s) ∧ s.endsOpen = false) (declaration n location) finish source
  initializer : ∀ {finish source},
    Makes (fun first _ => ∀ s ∈ first, Written (.stmt s)) (initializer n) finish source
  loopCondition : ∀ {finish source}, Makes (fun c _ => ∀ e ∈ c, Written (.expr e)) (loopCondition n) finish source
  increment : ∀ {finish source}, Makes (fun c _ => ∀ e ∈ c, Written (.expr e)) (increment n) finish source
  statement : ∀ {finish source},
    Makes (fun s rest => Written (.stmt s) ∧ (s.endsOpen → kindAt rest ≠ .elseWord)) (statement n) finish source
  expressionStatement : ∀ {finish source} location,
    Makes (fun s rest => Written (.stmt s) ∧ (s.endsOpen → kindAt rest ≠ .elseWord)) (expressionStatement n location)
      finish source

/-- A loop is made of parts that can be written. -/
theorem written_forLoop {location : Location} {first : Option Stmt} {condition step : Option Expr} {body : Stmt}
    (initial : ∀ s ∈ first, Written (.stmt s)) (test : ∀ e ∈ condition, Written (.expr e))
    (increment : ∀ e ∈ step, Written (.expr e)) (inside : Written (.stmt body)) :
    Written (.stmt (.forLoop location first condition step body)) := by
  have test : Written (.expr (condition.getD (.boolean location true))) := by
    cases condition with
    | none => exact .boolean
    | some e => exact test e rfl
  have loop : Written (.stmt (.forLoop location none condition step body)) := by
    cases step with
    | none => exact .whileLoop test inside
    | some e => exact .whileLoop test (.block (by simp [inside, Written.expression (increment e rfl)]))
  cases first with
  | none => exact loop
  | some s => exact .block (List.forall_mem_cons.2 ⟨initial s rfl, List.forall_mem_singleton.2 loop⟩)

/-- A loop without a block of its own ends like its body. -/
theorem endsOpen_forLoop {location : Location} {first : Option Stmt} {condition step : Option Expr} {body : Stmt}
    (ends : (Stmt.forLoop location first condition step body).endsOpen) : body.endsOpen := by
  cases first with
  | none =>
    cases step with
    | none => exact ends
    | some e => cases ends
  | some s => cases ends

namespace Constructs

theorem operand_succ (ih : Constructs n) :
    Makes (fun e _ => Written (.expr e)) (Parser.operand (n + 1)) finish source := by
  refine .take fun t mid lexed => ?_
  split
  · next kind => exact .pure (.identifier (lexed.name kind))
  · next kind => exact .pure (.number (lexed.magnitude kind))
  · exact .pure .string
  · exact .pure .boolean
  · exact .pure .boolean
  · exact .pure .null
  · exact .bind (ih.expression _) fun _ _ inside => .pure (.unary inside)
  · exact .bind (ih.expression _) fun _ _ inside => .pure (.unary inside)
  · exact .bind (ih.expression _) fun _ _ inside => .expect fun _ _ _ _ => .pure inside
  · exact .bind (ih.functionLiteral _) fun _ _ inside => .pure (.lambda inside.1)
  · exact .bind (ih.list _ _) fun _ _ inside => .pure (.array inside)
  · exact .bind ih.pairs fun _ _ inside => .pure (.object inside)
  · exact .reject

theorem carryOn_succ (ih : Constructs n) (level : Nat) {left : Expr} (written : Written (.expr left)) :
    Makes (fun e _ => Written (.expr e)) (Parser.carryOn (n + 1) level left) finish source := by
  refine .look fun t => ?_
  split
  · exact .pure written
  · split
    · exact .skip (.bind (ih.connect _ _ written) fun _ _ whole => ih.carryOn _ whole)
    · exact .pure written

theorem connect_succ (ih : Constructs n) (connective : Connective) (t : Token) {left : Expr}
    (written : Written (.expr left)) :
    Makes (fun e _ => Written (.expr e)) (Parser.connect (n + 1) connective t left) finish source := by
  cases connective with
  | assign =>
    refine .bind (ih.expression _) fun value _ inside => ?_
    split
    · cases written with
      | identifier isName => exact .pure (.assign isName inside)
    · exact .report (.pure written)
  | logical op => exact .bind (ih.expression _) fun _ _ right => .pure (.logical written right)
  | binary op => exact .bind (ih.expression _) fun _ _ right => .pure (.binary written right)
  | call => exact .bind (ih.list _ _) fun _ _ arguments => .pure (.call written arguments)
  | index => exact .bind (ih.expression _) fun _ _ inside => .expect fun _ _ _ _ => .pure (.index written inside)
  | member => exact .expect fun _ _ _ _ => .pure (.index written .string)

theorem list_succ (ih : Constructs n) (close : Token.Kind) (fault : GrammarFault) :
    Makes (fun es _ => ∀ e ∈ es, Written (.expr e)) (Parser.list (n + 1) close fault) finish source := by
  refine .accept (fun _ _ _ _ _ => .pure (by simp)) fun _ => .bind (ih.expression _) fun e _ first => ?_
  refine .bind ih.moreExpressions fun more _ others => .expect fun _ _ _ _ => .pure ?_
  exact List.forall_mem_cons.2 ⟨first, others⟩

theorem moreExpressions_succ (ih : Constructs n) :
    Makes (fun es _ => ∀ e ∈ es, Written (.expr e)) (Parser.moreExpressions (n + 1)) finish source := by
  refine .accept (fun _ _ _ _ _ => .bind (ih.expression _) fun e _ next => ?_) fun _ => .pure (by simp)
  exact .bind ih.moreExpressions fun more _ others => .pure (List.forall_mem_cons.2 ⟨next, others⟩)

theorem pairs_succ (ih : Constructs n) :
    Makes (fun ps _ => ∀ p ∈ ps, Written (.expr p.2)) (Parser.pairs (n + 1)) finish source := by
  refine .accept (fun _ _ _ _ _ => .pure (by simp)) fun _ => .propertyKey fun key _ => .expect fun _ _ _ _ =>
    .bind (ih.expression _) fun value _ inside => .accept (fun _ _ _ _ _ => ?_) fun _ => ?_
  · exact .bind ih.pairs fun more _ others => .pure (List.forall_mem_cons.2 ⟨inside, others⟩)
  · exact .expect fun _ _ _ _ => .pure (by simpa using inside)

theorem functionLiteral_succ (ih : Constructs n) (location : Location) :
    Makes (fun literal _ => Written (.function literal) ∧ (kindAt source = .identifier → literal.name ≠ []))
      (Parser.functionLiteral (n + 1) location) finish source := by
  have tail {name : Text} {fault : GrammarFault} {mid : List Token} (isName : name ≠ [] → IsName name)
      (some : kindAt source = .identifier → name ≠ []) :
      Makes (fun literal _ => Written (.function literal) ∧ (kindAt source = .identifier → literal.name ≠ [])) (do
        let _ ← expect .leftParen fault
        let names ← Parser.parameters n
        let brace ← expect .leftBrace .bodyOpen
        let body ← Parser.blockBody n
        Pure.pure (FunctionLiteral.mk location name names brace.location body)) finish mid :=
    .expect fun _ _ _ _ => .bind (.parameters n) fun _ _ names => .expect fun _ _ _ _ =>
      .bind ih.blockBody fun _ _ body => .pure ⟨.function isName names body, some⟩
  refine .accept (fun t mid taken isName lexed => ?_) fun other => ?_
  · exact tail (fun _ => lexed.name isName) fun _ => (lexed.name isName).ne_nil
  · refine tail (fun some => absurd rfl some) fun isName => absurd isName (other ?_)
    rintro rfl
    cases isName

theorem blockBody_succ (ih : Constructs n) :
    Makes (fun body _ => ∀ s ∈ body, Written (.stmt s)) (Parser.blockBody (n + 1)) finish source := by
  refine .look fun t => ?_
  split
  · exact .expect fun _ _ _ _ => .pure (by simp)
  · refine .recover ih.statement fun first _ made => .bind ih.blockBody fun more _ others => .pure fun s mem => ?_
    rcases List.mem_append.1 mem with mem | mem
    · exact (made s (Option.mem_toList.1 mem)).1
    · exact others s mem

theorem declaration_succ (ih : Constructs n) (location : Location) :
    Makes (fun s _ => Written (.stmt s) ∧ s.endsOpen = false) (Parser.declaration (n + 1) location)
      finish source := by
  refine .expect fun name _ isName lexed => .accept (fun _ _ _ _ _ => ?_) fun _ => ?_
  · exact .bind (ih.expression _) fun value _ inside => .pure ⟨.var (lexed.name isName) (by simpa using inside), rfl⟩
  · exact .pure ⟨.var (lexed.name isName) (by simp), rfl⟩

theorem initializer_succ (ih : Constructs n) :
    Makes (fun first _ => ∀ s ∈ first, Written (.stmt s)) (Parser.initializer (n + 1)) finish source := by
  refine .look fun t => ?_
  split
  · exact .skip (.pure (by simp))
  · split
    · exact .skip (.bind (ih.declaration _) fun s _ made => .expect fun _ _ _ _ => .pure (by simpa using made.1))
    · exact .bind (ih.expression _) fun e _ made => .expect fun _ _ _ _ => .pure (by simpa using .expression made)

theorem loopCondition_succ (ih : Constructs n) :
    Makes (fun c _ => ∀ e ∈ c, Written (.expr e)) (Parser.loopCondition (n + 1)) finish source :=
  .accept (fun _ _ _ _ _ => .pure (by simp)) fun _ => .bind (ih.expression _) fun e _ made =>
    .expect fun _ _ _ _ => .pure (by simpa using made)

theorem increment_succ (ih : Constructs n) :
    Makes (fun c _ => ∀ e ∈ c, Written (.expr e)) (Parser.increment (n + 1)) finish source :=
  .accept (fun _ _ _ _ _ => .pure (by simp)) fun _ => .bind (ih.expression _) fun e _ made =>
    .expect fun _ _ _ _ => .pure (by simpa using made)

theorem expressionStatement_succ (ih : Constructs n) (location : Location) :
    Makes (fun s rest => Written (.stmt s) ∧ (s.endsOpen → kindAt rest ≠ .elseWord))
      (Parser.expressionStatement (n + 1) location) finish source :=
  .bind (ih.expression _) fun e _ made => .statementEnd fun _ => ⟨.expression made, fun ends => by cases ends⟩

/-- A statement with a condition in parentheses behind its word. -/
theorem condition {openFault closeFault : GrammarFault} {f : Expr → Parser α} (ih : Constructs n)
    (later : ∀ condition mid, Written (.expr condition) → Makes P (f condition) finish mid) :
    Makes P (do
      let _ ← expect .leftParen openFault
      let condition ← Parser.expression n 0
      let _ ← expect .rightParen closeFault
      f condition) finish source :=
  .expect fun _ _ _ _ => .bind (ih.expression _) fun condition _ made => .expect fun _ mid _ _ =>
    later condition mid made

theorem statement_succ (ih : Constructs n) :
    Makes (fun s rest => Written (.stmt s) ∧ (s.endsOpen → kindAt rest ≠ .elseWord)) (Parser.statement (n + 1))
      finish source := by
  refine .look fun t => ?_
  split
  · refine .skip (.bind (ih.declaration _) fun s _ made => .statementEnd fun _ => ⟨made.1, fun ends => ?_⟩)
    rw [made.2] at ends
    cases ends
  · refine .lookBehind ?_
    split
    · next isName =>
      refine .skip (.bind (ih.functionLiteral _) fun literal _ made => .pure ?_)
      exact ⟨.declaration (made.2 isName) made.1, fun ends => by cases ends⟩
    · exact ih.expressionStatement _
  · refine .skip (ih.condition fun condition _ test => .bind ih.statement fun consequence last first => ?_)
    refine .accept (fun other _ taken isElse _ => ?_) fun noElse => .pure ?_
    · -- An `else` follows the consequence, so it is not open.
      have closed : consequence.endsOpen = false := Bool.eq_false_iff.2 fun ends =>
        first.2 ends (by rw [taken]; exact isElse)
      exact .bind ih.statement fun alternative rest second =>
        .pure ⟨.ifElse test first.1 closed second.1, second.2⟩
    · refine ⟨.ifOnly test first.1, fun _ => ?_⟩
      cases last with
      | nil => simp
      | cons t rest => exact noElse (List.cons_ne_nil _ _)
  · exact .skip (ih.condition fun condition _ test => .bind ih.statement fun body _ inside =>
      .pure ⟨.whileLoop test inside.1, inside.2⟩)
  · exact .skip (.expect fun _ _ _ _ => .bind ih.initializer fun first _ initial =>
      .bind ih.loopCondition fun condition _ test => .bind ih.increment fun step _ increment =>
        .bind ih.statement fun body _ inside =>
          .pure ⟨written_forLoop initial test increment inside.1, fun ends => inside.2 (endsOpen_forLoop ends)⟩)
  · refine .skip (.look fun next => ?_)
    split
    · exact .statementEnd fun _ => ⟨.returns (by simp), fun ends => by cases ends⟩
    · exact .bind (ih.expression _) fun value _ made => .statementEnd fun _ =>
        ⟨.returns (by simpa using made), fun ends => by cases ends⟩
  · exact .skip (.bind ih.blockBody fun body _ inside => .pure ⟨.block inside, fun ends => by cases ends⟩)
  · exact .skip (.pure ⟨.block (by simp), fun ends => by cases ends⟩)
  · exact ih.expressionStatement _

end Constructs

theorem constructs (n : Nat) : Constructs n := by
  induction n with
  | zero =>
    constructor
    case connect =>
      intro _ _ connective _ _ _
      cases connective <;> exact .exhausted
    all_goals
      intros
      exact .exhausted
  | succ n ih =>
    exact {
      expression := fun level => .bind ih.operand fun _ _ left => ih.carryOn level left
      operand := ih.operand_succ
      carryOn := ih.carryOn_succ
      connect := ih.connect_succ
      list := ih.list_succ
      moreExpressions := ih.moreExpressions_succ
      pairs := ih.pairs_succ
      functionLiteral := ih.functionLiteral_succ
      blockBody := ih.blockBody_succ
      declaration := ih.declaration_succ
      initializer := ih.initializer_succ
      loopCondition := ih.loopCondition_succ
      increment := ih.increment_succ
      statement := ih.statement_succ
      expressionStatement := ih.expressionStatement_succ }

theorem Makes.statements (n : Nat) : ∀ {source},
    Makes (fun body _ => ∀ s ∈ body, Written (.stmt s)) (statements n) finish source := by
  induction n with
  | zero => exact exhausted
  | succ n ih =>
    intro source
    refine .look fun t => ?_
    split
    · exact .pure (by simp)
    · refine .recover (constructs n).statement fun first _ made => .bind ih fun more _ others =>
        .pure fun s mem => ?_
      rcases List.mem_append.1 mem with mem | mem
      · exact (made s (Option.mem_toList.1 mem)).1
      · exact others s mem

end Parser

/-- The program of tokens that can stand in a source can be written so that it is read back. -/
theorem Program.written_ofTokens {tokens : List Token} (lexed : AllLexed tokens) (finish : Location) :
    ∀ s ∈ (Program.ofTokens tokens finish).1.statements, Written (.stmt s) := by
  have makes : Parser.Makes (fun body _ => ∀ s ∈ body, Written (.stmt s)) (Parser.statements (Parser.budget tokens))
      finish tokens := .statements _
  have made := (makes lexed).2
  unfold Program.ofTokens
  cases run : Parser.statements (Parser.budget tokens) finish tokens with
  | ok body rest errors => exact made body rest errors run
  | failed resume errors => exact fun s mem => (List.not_mem_nil mem).elim

end TinyScript
