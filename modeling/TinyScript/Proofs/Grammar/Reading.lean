import TinyScript.Proofs.Grammar.Shape
import TinyScript.Proofs.Parser.Budget

namespace TinyScript

namespace Parser

variable {α : Type} {n level : Nat} {finish : Location} {source rest : List Token} {t : Token} {left e : Expr}

theorem Settles.carryOn_stop (loose : bindingAt source ≤ level) :
    Settles (carryOn · level left) finish source (.ok left source []) := by
  refine .of_succ (.look ?_)
  rw [look_kind]
  unfold bindingAt at loose
  split
  · exact .pure left
  · next c found =>
    rw [found] at loose
    have stops : ¬ level < c.level := Nat.not_lt.2 loose
    simp only [stops, if_false]
    exact .pure left

theorem Settles.carryOn_go {c : Connective} {whole : Expr} {r : Reply Expr}
    (kind : Connective.ofKind? t.kind = some c) (tight : level < c.level)
    (connects : Settles (connect · c t left) finish source (.ok whole rest []))
    (later : Settles (carryOn · level whole) finish rest r) :
    Settles (carryOn · level left) finish (t :: source) r := by
  refine .of_succ (.look ?_)
  simp only [List.head?_cons, Option.getD_some, kind, if_pos tight]
  exact .skip (connects.andThen later)

/-- An expression is an operand that is carried on. -/
theorem Settles.expression {r : Reply Expr} (first : Settles operand finish source (.ok left rest []))
    (later : Settles (carryOn · level left) finish rest r) : Settles (expression · level) finish source r :=
  .of_succ (first.andThen later)

theorem Settles.operand_literal (literal : Grammar.Literal t e) :
    Settles operand finish (t :: rest) (.ok e rest []) := by
  refine .of_succ (.take ?_)
  cases literal with
  | _ kind =>
    simp only [kind]
    exact .pure _

theorem Settles.operand_sign {op : UnaryOperator} (sign : Grammar.Sign t.kind op)
    (inside : Settles (Parser.expression · Connective.unaryLevel) finish source (.ok e rest [])) :
    Settles operand finish (t :: source) (.ok (.unary t.location op e) rest []) := by
  refine .of_succ (.take ?_)
  generalize t.kind = kind at sign
  cases sign <;> exact inside.andThen (.pure _)

theorem Settles.operand_group {closing : Token} (opens : t.kind = .leftParen)
    (inside : Settles (Parser.expression · 0) finish source (.ok e (closing :: rest) []))
    (closes : closing.kind = .rightParen) : Settles operand finish (t :: source) (.ok e rest []) := by
  refine .of_succ (.take ?_)
  simp only [opens]
  exact inside.andThen (.expect closes (.pure _))

theorem Settles.operand_function {literal : FunctionLiteral} (word : t.kind = .functionWord)
    (inside : Settles (functionLiteral · t.location) finish source (.ok literal rest [])) :
    Settles operand finish (t :: source) (.ok (.function literal) rest []) := by
  refine .of_succ (.take ?_)
  simp only [word]
  exact inside.andThen (.pure _)

theorem Settles.operand_array {elements : List Expr} (opens : t.kind = .leftBracket)
    (inside : Settles (list · .rightBracket .elementsClose) finish source (.ok elements rest [])) :
    Settles operand finish (t :: source) (.ok (.array t.location elements) rest []) := by
  refine .of_succ (.take ?_)
  simp only [opens]
  exact inside.andThen (.pure _)

theorem Settles.operand_object {entries : List (Text × Expr)} (opens : t.kind = .leftBrace)
    (inside : Settles pairs finish source (.ok entries rest [])) :
    Settles operand finish (t :: source) (.ok (.object t.location entries) rest []) := by
  refine .of_succ (.take ?_)
  simp only [opens]
  exact inside.andThen (.pure _)

theorem statementEnd_eq {next : Token.Kind} {ys : List Token} {fault : GrammarFault} (ends : Grammar.End next ys)
    (behind : kindAt rest = next) : statementEnd fault finish (ys ++ rest) = .ok () rest [] := by
  rw [statementEnd, look_bind]
  cases ends with
  | semicolon kind =>
    simp only [List.cons_append, List.nil_append, List.head?_cons, Option.getD_some, kind, if_true]
    rfl
  | omitted last =>
    have kind : (rest.head?.getD (.finish finish)).kind = next := look_kind.trans behind
    rcases last with rfl | rfl <;> simp [kind]

theorem Settles.statementEnd {next : Token.Kind} {ys : List Token} {fault : GrammarFault} {f : Nat → Unit → Parser α}
    {r : Reply α} (ends : Grammar.End next ys) (behind : kindAt rest = next)
    (later : Settles (fun n => f n ()) finish rest r) :
    Settles (fun n => Parser.statementEnd fault >>= f n) finish (ys ++ rest) r :=
  .andThen ⟨0, fun _ _ => statementEnd_eq ends behind⟩ later

theorem propertyKey_eq {key : Text} (isKey : Grammar.Key t key) :
    propertyKey finish (t :: rest) = .ok key rest [] := by
  rw [propertyKey, take_bind]
  cases isKey <;> simp_all

theorem Settles.moreParameters {xs : List Token} {names : List Text} (parameters : Grammar.MoreParameters xs names)
    (behind : kindAt rest ≠ .comma) : Settles Parser.moreParameters finish (xs ++ rest) (.ok names rest []) := by
  induction parameters with
  | done => exact .of_succ (.accept_none behind (.pure _))
  | more comma name _ ih => exact .of_succ (.accept_some comma (.expect name (ih.andThen (.pure _))))

theorem Settles.parameters {xs : List Token} {names : List Text} {closing : Token}
    (parameters : Grammar.Parameters xs names) (closes : closing.kind = .rightParen) :
    Settles Parser.parameters finish (xs ++ closing :: rest) (.ok names rest []) := by
  cases parameters with
  | empty => exact .accept_some closes (.pure _)
  | names name more =>
    refine .accept_none ?_ (.expect name ((Settles.moreParameters more ?_).andThen (.expect closes (.pure _))))
    · simp [name]
    · simp [closes]

theorem Settles.target {xs : List Token} {location : Location} {name : Text} {r : Reply Expr}
    (target : Grammar.Target xs location name) (low : level ≤ 8)
    (later : Settles (carryOn · level (.identifier location name)) finish rest r) :
    Settles (Parser.expression · level) finish (xs ++ rest) r := by
  induction target generalizing level rest r with
  | name kind => exact .expression (.operand_literal (.identifier kind)) later
  | @group opening closing xs _ _ opens _ closes ih =>
    rw [List.cons_append, List.append_assoc]
    refine .expression (.operand_group opens ?_ closes) later
    exact ih (Nat.zero_le _)
      (.carryOn_stop (Nat.le_of_eq (bindingAt_eq_zero (by simp [closes, Connective.ofKind?]))))

/-- What stands behind the words `if` and `while`. -/
theorem Settles.condition {opening closing : Token} {xs : List Token} {openFault closeFault : GrammarFault}
    {condition : Expr} {f : Nat → Expr → Parser α} {r : Reply α} (opens : opening.kind = .leftParen)
    (inside : Settles (Parser.expression · 0) finish (xs ++ closing :: rest) (.ok condition (closing :: rest) []))
    (closes : closing.kind = .rightParen) (later : Settles (fun n => f n condition) finish rest r) :
    Settles (fun n => do
      let _ ← Parser.expect .leftParen openFault
      let condition ← Parser.expression n 0
      let _ ← Parser.expect .rightParen closeFault
      f n condition) finish (opening :: (xs ++ closing :: rest)) r :=
  .expect opens (inside.andThen (.expect closes later))

end Parser

namespace Grammar

open TinyScript.Parser

/-- Tokens are read as a nonterminal, whatever admissible tokens stand behind them. An expression is read when
its stratum is tighter than the level asked for and no tighter connective stands behind it. A tree of signs
or of suffixes is read at every level. -/
def Reads (finish : Location) : (nonterminal : Nonterminal) → List Token → nonterminal.Tree → Prop
  | .expr s, xs, e => ∀ level rest r, (level < s.level ∨ 8 ≤ s.level) → level ≤ 8 → bindingAt rest ≤ s.level →
      (s = .expression → bindingAt rest = 0) → Settles (carryOn · level e) finish rest r →
      Settles (expression · level) finish (xs ++ rest) r
  | .list, xs, elements => ∀ closing rest fault, closing.kind = .rightParen ∨ closing.kind = .rightBracket →
      Settles (list · closing.kind fault) finish (xs ++ closing :: rest) (.ok elements rest [])
  | .more, xs, elements => ∀ rest, kindAt rest ≠ .comma → bindingAt rest = 0 →
      Settles moreExpressions finish (xs ++ rest) (.ok elements rest [])
  | .pairs, xs, entries => ∀ closing rest, closing.kind = .rightBrace →
      Settles pairs finish (xs ++ closing :: rest) (.ok entries rest [])
  | .function, xs, literal => ∃ word ys, xs = word :: ys ∧ word.kind = .functionWord ∧
      ∀ rest, Settles (functionLiteral · word.location) finish (ys ++ rest) (.ok literal rest [])
  | .declaration, xs, s => ∃ word ys, xs = word :: ys ∧ word.kind = .varWord ∧
      ∀ rest, bindingAt rest = 0 → Settles (declaration · word.location) finish (ys ++ rest) (.ok s rest [])
  | .initializer, xs, first => ∀ rest, Settles initializer finish (xs ++ rest) (.ok first rest [])
  | .clause close, xs, e => ∀ rest,
      (close = .semicolon → Settles loopCondition finish (xs ++ rest) (.ok e rest [])) ∧
        (close = .rightParen → Settles increment finish (xs ++ rest) (.ok e rest []))
  | .statement next, xs, s => ∀ rest, kindAt rest = next →
      Settles statement finish (xs ++ rest) (.ok s rest [])
  | .statements next, xs, body =>
      (next = .rightBrace → ∀ closing rest, closing.kind = .rightBrace →
        Settles blockBody finish (xs ++ closing :: rest) (.ok body rest [])) ∧
      (next = .endOfInput → Settles Parser.statements finish xs (.ok body [] []))

variable {finish : Location} {xs ys rest : List Token} {t : Token} {e : Expr} {next : Token.Kind}

/-- A whole expression before a token that does not carry it on. -/
theorem Reads.whole (reads : Reads finish (.expr .expression) xs e) (ends : bindingAt rest = 0) :
    Settles (expression · 0) finish (xs ++ rest) (.ok e rest []) :=
  reads 0 rest _ (.inl Nat.one_pos) (Nat.zero_le _) (by omega) (fun _ => ends)
    (.carryOn_stop (Nat.le_of_eq ends))

theorem End.binding (ends : End next ys) (behind : kindAt rest = next) : bindingAt (ys ++ rest) = 0 := by
  refine bindingAt_eq_zero ?_
  cases ends with
  | semicolon kind => simp [kind, Connective.ofKind?]
  | omitted last =>
    rw [List.nil_append, behind]
    rcases last with rfl | rfl <;> rfl

/-- Nothing is taken away before an expression where a token that begins none is looked for. -/
theorem kindAt_ne (begins : (kindAt xs).beginsExpression) {kind : Token.Kind}
    (other : kind.beginsExpression = false) :
    kindAt (xs ++ rest) ≠ kind := by
  rw [kindAt_append (ne_nil_of_beginsExpression begins)]
  rintro rfl
  rw [begins] at other
  cases other

theorem Key.ne_rightBrace {key : Text} (isKey : Key t key) : kindAt (t :: xs) ≠ .rightBrace := by
  cases isKey <;> simp_all

theorem binding_of_kind {rest : List Token} (kind : kindAt rest = .rightParen ∨ kindAt rest = .rightBracket ∨
    kindAt rest = .rightBrace ∨ kindAt rest = .comma ∨ kindAt rest = .semicolon) : bindingAt rest = 0 := by
  refine bindingAt_eq_zero ?_
  rcases kind with kind | kind | kind | kind | kind <;> rw [kind] <;> rfl

theorem Joins.connective {upper lower : Stratum} {kind : Token.Kind} {make : Location → Expr → Expr → Expr}
    (joins : Joins upper lower kind make) (finish : Location) (xs : List Token) : ∃ c,
      Connective.ofKind? kind = some c ∧ c.level = upper.level ∧
      ∀ t left right rest r, Settles (expression · c.level) finish xs (.ok right rest []) →
        r = .ok (make t.location left right) rest [] → Settles (connect · c t left) finish xs r := by
  cases joins
  all_goals
    refine ⟨_, rfl, rfl, ?_⟩
    rintro t left right rest _ inside rfl
    exact .of_succ (inside.andThen (.pure _))

theorem Reads.looser {upper lower : Stratum} (includes : upper.Includes lower)
    (reads : Reads finish (.expr lower) xs e) : Reads finish (.expr upper) xs e := by
  intro level rest r loose low binding _ later
  have levels := includes.level
  refine reads level rest r (by omega) low (by omega) ?_ later
  rintro rfl
  cases includes

theorem Reads.assign {location : Location} {name : Text} {value : Expr} (target : Target xs location name)
    (equals : t.kind = .assign) (reads : Reads finish (.expr .expression) ys value) :
    Reads finish (.expr .expression) (xs ++ t :: ys) (.assign location name value) := by
  intro level rest r loose low _ ends later
  rw [List.append_assoc, List.cons_append]
  have kind : Connective.ofKind? t.kind = some .assign := by rw [equals]; rfl
  have tight : level < Connective.assign.level := loose.resolve_right (by decide)
  refine .target target low (.carryOn_go kind tight ?_ later)
  exact .of_succ ((reads.whole (ends rfl)).andThen (.pure _))

theorem Reads.join {upper lower : Stratum} {kind : Token.Kind} {make : Location → Expr → Expr → Expr}
    {left right : Expr} (joins : Joins upper lower kind make) (first : Reads finish (.expr upper) xs left)
    (operator : t.kind = kind) (second : Reads finish (.expr lower) ys right) :
    Reads finish (.expr upper) (xs ++ t :: ys) (make t.location left right) := by
  intro level rest r loose low binding ends later
  obtain ⟨c, found, same, connects⟩ := joins.connective finish (ys ++ rest)
  have found : Connective.ofKind? t.kind = some c := operator ▸ found
  have levels := joins.lower_level
  have few := joins.level_le
  have notAssign {s : Stratum} (tight : 1 < s.level) : s = .expression → bindingAt rest = 0 := by
    rintro rfl
    exact absurd tight (by decide)
  rw [List.append_assoc, List.cons_append]
  refine first level _ r loose low ?_ ?_ (.carryOn_go found (by omega) (connects t left right rest _ ?_ rfl) later)
  · exact Nat.le_of_eq ((bindingAt_eq found _).trans same)
  · rintro rfl
    cases joins
  · exact second c.level rest _ (.inl (by omega)) (by omega) (by omega) (notAssign (by omega))
      (.carryOn_stop (by omega))

theorem Reads.sign {op : UnaryOperator} (sign : Sign t.kind op) (reads : Reads finish (.expr .unary) xs e) :
    Reads finish (.expr .unary) (t :: xs) (.unary t.location op e) := by
  intro level rest r _ _ binding _ later
  refine .expression (.operand_sign sign (reads 8 rest _ (.inr (Nat.le_refl _)) (Nat.le_refl _) binding ?_ ?_)) later
  · rintro ⟨⟩
  · exact .carryOn_stop binding

/-- Suffixes carry an expression on at every level. -/
theorem Reads.suffix {left whole : Expr} {c : Connective} (reads : Reads finish (.expr .suffixed) xs left)
    (kind : Connective.ofKind? t.kind = some c) (tight : c.level = 9)
    (connects : ∀ rest, Settles (connect · c t left) finish (ys ++ rest) (.ok whole rest [])) :
    Reads finish (.expr .suffixed) (xs ++ t :: ys) whole := by
  intro level rest r _ low _ _ later
  rw [List.append_assoc, List.cons_append]
  refine reads level _ r (.inr (by decide)) low ?_ ?_ (.carryOn_go kind (by omega) (connects rest) later)
  · rw [bindingAt_eq kind, tight]
    exact Nat.le_refl _
  · rintro ⟨⟩

theorem Reads.primary (reads : ∀ rest, Settles operand finish (xs ++ rest) (.ok e rest [])) :
    Reads finish (.expr .primary) xs e :=
  fun _ rest _ _ _ _ _ later => .expression (reads rest) later

theorem binding_of_more (following : Begins ys .more) (ends : bindingAt rest = 0) : bindingAt (ys ++ rest) = 0 := by
  rcases following with rfl | comma
  · exact ends
  · refine binding_of_kind (.inr (.inr (.inr (.inl ?_))))
    rw [kindAt_append (by rintro rfl; cases comma), comma]

theorem Reads.listCons {first : Expr} {more : List Expr} (begins : (kindAt xs).beginsExpression)
    (reads : Reads finish (.expr .expression) xs first) (following : Begins ys .more)
    (others : Reads finish .more ys more) : Reads finish .list (xs ++ ys) (first :: more) := by
  intro closing rest fault closes
  have noComma : closing.kind ≠ .comma := by rcases closes with kind | kind <;> simp [kind]
  have ends : bindingAt (closing :: rest) = 0 :=
    binding_of_kind (closes.imp_right .inl)
  have notClosing : kindAt (xs ++ (ys ++ closing :: rest)) ≠ closing.kind :=
    kindAt_ne begins (by rcases closes with kind | kind <;> simp [kind, Token.Kind.beginsExpression])
  have behind := binding_of_more following ends
  rw [List.append_assoc]
  refine .of_succ (.accept_none notClosing ((reads.whole behind).andThen ?_))
  exact (others (closing :: rest) noComma ends).andThen (.expect rfl (.pure _))

theorem Reads.moreCons {comma : Token} {first : Expr} {more : List Expr} (isComma : comma.kind = .comma)
    (reads : Reads finish (.expr .expression) xs first) (following : Begins ys .more)
    (others : Reads finish .more ys more) : Reads finish .more (comma :: (xs ++ ys)) (first :: more) := by
  intro rest noComma ends
  have behind := binding_of_more following ends
  rw [List.cons_append, List.append_assoc]
  exact .of_succ (.accept_some isComma ((reads.whole behind).andThen ((others _ noComma ends).andThen (.pure _))))

theorem Reads.pairsLast {colon : Token} {key : Text} (isKey : Key t key) (isColon : colon.kind = .colon)
    (reads : Reads finish (.expr .expression) xs e) : Reads finish .pairs (t :: colon :: xs) [(key, e)] := by
  intro closing rest closes
  have ends : bindingAt (closing :: rest) = 0 := binding_of_kind (.inr (.inr (.inl closes)))
  refine .of_succ (.accept_none isKey.ne_rightBrace
    (.andThen ⟨0, fun _ _ => propertyKey_eq isKey⟩ (.expect isColon ?_)))
  exact (reads.whole ends).andThen (.accept_none (by simp [closes]) (.expect closes (.pure _)))

theorem Reads.pairsCons {colon comma : Token} {key : Text} {more : List (Text × Expr)} (isKey : Key t key)
    (isColon : colon.kind = .colon) (reads : Reads finish (.expr .expression) xs e) (isComma : comma.kind = .comma)
    (others : Reads finish .pairs ys more) :
    Reads finish .pairs (t :: colon :: (xs ++ comma :: ys)) ((key, e) :: more) := by
  intro closing rest closes
  have ends : bindingAt (comma :: (ys ++ closing :: rest)) = 0 :=
    binding_of_kind (.inr (.inr (.inr (.inl isComma))))
  simp only [List.cons_append, List.append_assoc]
  refine .of_succ (.accept_none isKey.ne_rightBrace
    (.andThen ⟨0, fun _ _ => propertyKey_eq isKey⟩ (.expect isColon ?_)))
  exact (reads.whole ends).andThen (.accept_some isComma ((others closing rest closes).andThen (.pure _)))

theorem Reads.function {word opening closing brace last : Token} {ns ps : List Token} {name : Text}
    {parameters : List Text} {body : List Stmt} (isWord : word.kind = .functionWord) (isName : Name ns name)
    (opens : opening.kind = .leftParen) (names : Parameters ps parameters) (closes : closing.kind = .rightParen)
    (begins : brace.kind = .leftBrace) (reads : Reads finish (.statements .rightBrace) xs body)
    (ends : last.kind = .rightBrace) :
    Reads finish .function (word :: (ns ++ opening :: (ps ++ closing :: brace :: (xs ++ [last]))))
      ⟨word.location, name, parameters, brace.location, body⟩ := by
  refine ⟨word, _, rfl, isWord, fun rest => ?_⟩
  simp only [List.append_assoc, List.cons_append, List.nil_append]
  have tail {fault : GrammarFault} {name : Text} : Settles (fun n => do
      let _ ← expect .leftParen fault
      let names ← Parser.parameters n
      let brace ← expect .leftBrace .bodyOpen
      let body ← blockBody n
      pure (FunctionLiteral.mk word.location name names brace.location body)) finish
      (opening :: (ps ++ closing :: brace :: (xs ++ last :: rest)))
      (.ok ⟨word.location, name, parameters, brace.location, body⟩ rest []) :=
    .expect opens ((Settles.parameters names closes).andThen
      (.expect begins ((reads.1 rfl last rest ends).andThen (.pure _))))
  cases isName with
  | missing => exact .of_succ (.accept_none (by simp [opens]) tail)
  | given kind => exact .of_succ (.accept_some kind tail)

theorem Reads.initialized {word name equals : Token} (isWord : word.kind = .varWord)
    (isName : name.kind = .identifier)
    (isEquals : equals.kind = .assign) (reads : Reads finish (.expr .expression) xs e) :
    Reads finish .declaration (word :: name :: equals :: xs) (.var word.location name.literal (some e)) :=
  ⟨word, _, rfl, isWord, fun _ ends =>
    .of_succ (.expect isName (.accept_some isEquals ((reads.whole ends).andThen (.pure _))))⟩

theorem Reads.declares {close : Token} {s : Stmt} (reads : Reads finish .declaration xs s)
    (closes : close.kind = .semicolon) : Reads finish .initializer (xs ++ [close]) (some s) := by
  obtain ⟨word, ys, rfl, isWord, declares⟩ := reads
  intro rest
  have ends : bindingAt (close :: rest) = 0 := binding_of_kind (.inr (.inr (.inr (.inr closes))))
  rw [List.append_assoc]
  refine .of_succ (.look ?_)
  simp only [List.cons_append, List.head?_cons, Option.getD_some, isWord, reduceCtorEq, if_false, if_true]
  exact .skip ((declares _ ends).andThen (.expect closes (.pure _)))

theorem Reads.evaluated {close : Token} (begins : t.kind.beginsExpression)
    (reads : Reads finish (.expr .expression) (t :: xs) e) (closes : close.kind = .semicolon) :
    Reads finish .initializer (t :: (xs ++ [close])) (some (.expression t.location e)) := by
  intro rest
  have ends : bindingAt (close :: rest) = 0 := binding_of_kind (.inr (.inr (.inr (.inr closes))))
  have noSemicolon : t.kind ≠ .semicolon := fun kind => by simp [kind, Token.Kind.beginsExpression] at begins
  have noWord : t.kind ≠ .varWord := fun kind => by simp [kind, Token.Kind.beginsExpression] at begins
  rw [List.cons_append, List.append_assoc]
  refine .of_succ (.look ?_)
  simp only [List.head?_cons, Option.getD_some, noSemicolon, noWord, if_false]
  exact (reads.whole ends).andThen (.expect closes (.pure _))

theorem Reads.aClause {close : Token} (begins : (kindAt xs).beginsExpression)
    (reads : Reads finish (.expr .expression) xs e) :
    Reads finish (.clause close.kind) (xs ++ [close]) (some e) := by
  intro rest
  rw [List.append_assoc]
  refine ⟨fun closes => ?_, fun closes => ?_⟩
  · have ends : bindingAt (close :: rest) = 0 := binding_of_kind (.inr (.inr (.inr (.inr closes))))
    exact .of_succ (.accept_none (kindAt_ne begins rfl) ((reads.whole ends).andThen (.expect closes (.pure _))))
  · have ends : bindingAt (close :: rest) = 0 := binding_of_kind (.inl closes)
    exact .of_succ (.accept_none (kindAt_ne begins rfl) ((reads.whole ends).andThen (.expect closes (.pure _))))

theorem Reads.var {s : Stmt} (reads : Reads finish .declaration xs s) (ends : End next ys) :
    Reads finish (.statement next) (xs ++ ys) s := by
  obtain ⟨word, zs, rfl, isWord, declares⟩ := reads
  intro rest behind
  rw [List.append_assoc]
  refine .of_succ (.look ?_)
  simp only [List.cons_append, List.head?_cons, Option.getD_some, isWord]
  exact .skip ((declares _ (ends.binding behind)).andThen (.statementEnd ends behind (.pure _)))

theorem Reads.functionDeclaration {word name : Token} {literal : FunctionLiteral}
    (reads : Reads finish .function (word :: name :: xs) literal) (isName : name.kind = .identifier) :
    Reads finish (.statement next) (word :: name :: xs) (.function literal) := by
  obtain ⟨_, _, same, isWord, functions⟩ := reads
  cases same
  intro rest _
  refine .of_succ (.look ?_)
  simp only [List.cons_append, List.head?_cons, Option.getD_some, isWord]
  refine .lookBehind ?_
  simp only [kindAt_cons, isName, if_true]
  exact .skip ((functions rest).andThen (.pure _))

theorem Reads.ifOnly {word opening closing : Token} {cs : List Token} {condition : Expr} {consequence : Stmt}
    (isWord : word.kind = .ifWord) (opens : opening.kind = .leftParen)
    (inside : Reads finish (.expr .expression) cs condition) (closes : closing.kind = .rightParen)
    (reads : Reads finish (.statement next) xs consequence) (noElse : next ≠ .elseWord) :
    Reads finish (.statement next) (word :: opening :: (cs ++ closing :: xs))
      (.ifElse word.location condition consequence none) := by
  intro rest behind
  have ends : bindingAt (closing :: (xs ++ rest)) = 0 := binding_of_kind (.inl closes)
  simp only [List.cons_append, List.append_assoc]
  refine .of_succ (.look ?_)
  simp only [List.head?_cons, Option.getD_some, isWord]
  refine .skip (.condition opens (inside.whole ends) closes ?_)
  exact (reads rest behind).andThen (.accept_none (behind ▸ noElse) (.pure _))

theorem Reads.ifElse {word opening closing other : Token} {cs : List Token} {condition : Expr}
    {consequence alternative : Stmt} (isWord : word.kind = .ifWord) (opens : opening.kind = .leftParen)
    (inside : Reads finish (.expr .expression) cs condition) (closes : closing.kind = .rightParen)
    (reads : Reads finish (.statement .elseWord) xs consequence) (isElse : other.kind = .elseWord)
    (others : Reads finish (.statement next) ys alternative) :
    Reads finish (.statement next) (word :: opening :: (cs ++ closing :: (xs ++ other :: ys)))
      (.ifElse word.location condition consequence (some alternative)) := by
  intro rest behind
  have ends : bindingAt (closing :: (xs ++ other :: (ys ++ rest))) = 0 := binding_of_kind (.inl closes)
  simp only [List.cons_append, List.append_assoc]
  refine .of_succ (.look ?_)
  simp only [List.head?_cons, Option.getD_some, isWord]
  refine .skip (.condition opens (inside.whole ends) closes ?_)
  exact (reads (other :: (ys ++ rest)) isElse).andThen (.accept_some isElse ((others rest behind).andThen (.pure _)))

theorem Reads.whileLoop {word opening closing : Token} {cs : List Token} {condition : Expr} {body : Stmt}
    (isWord : word.kind = .whileWord) (opens : opening.kind = .leftParen)
    (inside : Reads finish (.expr .expression) cs condition) (closes : closing.kind = .rightParen)
    (reads : Reads finish (.statement next) xs body) :
    Reads finish (.statement next) (word :: opening :: (cs ++ closing :: xs))
      (.whileLoop word.location condition body) := by
  intro rest behind
  have ends : bindingAt (closing :: (xs ++ rest)) = 0 := binding_of_kind (.inl closes)
  simp only [List.cons_append, List.append_assoc]
  refine .of_succ (.look ?_)
  simp only [List.head?_cons, Option.getD_some, isWord]
  exact .skip (.condition opens (inside.whole ends) closes ((reads rest behind).andThen (.pure _)))

theorem Reads.forLoop {word opening : Token} {is cs ns : List Token} {first : Option Stmt}
    {condition step : Option Expr} {body : Stmt} (isWord : word.kind = .forWord) (opens : opening.kind = .leftParen)
    (initial : Reads finish .initializer is first) (middle : Reads finish (.clause .semicolon) cs condition)
    (last : Reads finish (.clause .rightParen) ns step) (reads : Reads finish (.statement next) xs body) :
    Reads finish (.statement next) (word :: opening :: (is ++ (cs ++ (ns ++ xs))))
      (.forLoop word.location first condition step body) := by
  intro rest behind
  simp only [List.cons_append, List.append_assoc]
  refine .of_succ (.look ?_)
  simp only [List.head?_cons, Option.getD_some, isWord]
  refine .skip (.expect opens ((initial _).andThen (((middle _).1 rfl).andThen (((last _).2 rfl).andThen ?_))))
  exact (reads rest behind).andThen (.pure _)

theorem Reads.returnNull {word : Token} (isWord : word.kind = .returnWord) (ends : End next ys) :
    Reads finish (.statement next) (word :: ys) (.returns word.location none) := by
  intro rest behind
  have bare : kindAt (ys ++ rest) = .semicolon ∨ kindAt (ys ++ rest) = .rightBrace ∨
      kindAt (ys ++ rest) = .endOfInput := by
    cases ends with
    | semicolon kind => exact .inl kind
    | omitted last => exact .inr (behind ▸ last)
  refine .of_succ (.look ?_)
  simp only [List.cons_append, List.head?_cons, Option.getD_some, isWord]
  refine .skip (.look ?_)
  rw [look_kind]
  simp only [bare, if_true]
  exact .statementEnd ends behind (.pure _)

theorem Reads.returnValue {word : Token} (isWord : word.kind = .returnWord) (begins : (kindAt xs).beginsExpression)
    (reads : Reads finish (.expr .expression) xs e) (ends : End next ys) :
    Reads finish (.statement next) (word :: (xs ++ ys)) (.returns word.location (some e)) := by
  intro rest behind
  have some : ¬(kindAt (xs ++ (ys ++ rest)) = .semicolon ∨ kindAt (xs ++ (ys ++ rest)) = .rightBrace ∨
      kindAt (xs ++ (ys ++ rest)) = .endOfInput) := by
    rintro (kind | kind | kind)
    all_goals exact kindAt_ne begins rfl kind
  simp only [List.cons_append, List.append_assoc]
  refine .of_succ (.look ?_)
  simp only [List.head?_cons, Option.getD_some, isWord]
  refine .skip (.look ?_)
  rw [look_kind]
  simp only [some, if_false]
  exact (reads.whole (ends.binding behind)).andThen (.statementEnd ends behind (.pure _))

theorem Reads.block {brace last : Token} {body : List Stmt} (begins : brace.kind = .leftBrace)
    (reads : Reads finish (.statements .rightBrace) xs body) (ends : last.kind = .rightBrace) :
    Reads finish (.statement next) (brace :: (xs ++ [last])) (.block brace.location body) := by
  intro rest _
  simp only [List.cons_append, List.append_assoc, List.nil_append]
  refine .of_succ (.look ?_)
  simp only [List.head?_cons, Option.getD_some, begins]
  exact .skip ((reads.1 rfl last rest ends).andThen (.pure _))

theorem Reads.empty (isSemicolon : t.kind = .semicolon) :
    Reads finish (.statement next) [t] (.block t.location []) := by
  intro rest _
  refine .of_succ (.look ?_)
  simp only [List.cons_append, List.nil_append, List.head?_cons, Option.getD_some, isSemicolon]
  exact .skip (.pure _)

theorem Reads.expression (begins : t.kind.beginsExpression) (reads : Reads finish (.expr .expression) (t :: xs) e)
    (noBlock : t.kind ≠ .leftBrace) (noName : t.kind = .functionWord → xs ≠ [] ∧ kindAt xs ≠ .identifier)
    (ends : End next ys) : Reads finish (.statement next) (t :: (xs ++ ys)) (.expression t.location e) := by
  intro rest behind
  have whole : Settles (expressionStatement · t.location) finish (t :: (xs ++ (ys ++ rest)))
      (.ok (.expression t.location e) rest []) :=
    .of_succ ((reads.whole (ends.binding behind)).andThen (.statementEnd ends behind (.pure _)))
  simp only [List.cons_append, List.append_assoc]
  refine .of_succ (.look ?_)
  simp only [List.head?_cons, Option.getD_some]
  split
  case h_2 word =>
    obtain ⟨some, noName⟩ := noName word
    refine .lookBehind ?_
    simp only [kindAt_append some, noName, if_false]
    exact whole
  case h_9 => exact whole
  all_goals simp_all [Token.Kind.beginsExpression]

theorem Reads.done : Reads finish (.statements next) [] [] :=
  ⟨fun _ closing rest closes => .of_succ (.look (by
      simp only [List.nil_append, List.head?_cons, Option.getD_some, closes, true_or, if_true]
      exact .expect closes (.pure _))),
    fun _ => .of_succ (.look (.pure _))⟩

theorem Reads.andThen {s : Stmt} {more : List Stmt} (derives : Derives (.statement (firstKind ys next)) xs s)
    (first : Reads finish (.statement (firstKind ys next)) xs s) (others : Reads finish (.statements next) ys more) :
    Reads finish (.statements next) (xs ++ ys) (s :: more) := by
  have opens {rest : List Token} : kindAt (xs ++ rest) ≠ .rightBrace ∧ kindAt (xs ++ rest) ≠ .endOfInput :=
    ⟨derives.kindAt_statement_ne rest (.inl rfl), derives.kindAt_statement_ne rest (.inr (.inr rfl))⟩
  refine ⟨?_, ?_⟩
  · rintro rfl closing rest closes
    have following : kindAt (ys ++ closing :: rest) = firstKind ys .rightBrace := by
      cases ys <;> simp [firstKind, closes]
    rw [List.append_assoc]
    refine .of_succ (.look ?_)
    rw [look_kind]
    simp only [opens.1, opens.2, or_self, if_false]
    exact (first _ following).recover_some.andThen ((others.1 rfl closing rest closes).andThen (.pure _))
  · rintro rfl
    have following : kindAt ys = firstKind ys .endOfInput := rfl
    refine .of_succ (.look ?_)
    rw [look_kind]
    simp only [opens.2, if_false]
    exact (first _ following).recover_some.andThen ((others.2 rfl).andThen (.pure _))

/-- What the grammar derives is read as the tree of the derivation. -/
theorem Derives.reads {nonterminal : Nonterminal} {tree : nonterminal.Tree} (h : Derives nonterminal xs tree)
    (finish : Location) : Reads finish nonterminal xs tree := by
  induction h with
  | looser includes _ ih => exact ih.looser includes
  | assign target equals _ ih => exact .assign target equals ih
  | join joins _ operator _ first second => exact .join joins first operator second
  | sign sign _ ih => exact .sign sign ih
  | call _ opens _ closes callee arguments =>
    refine callee.suffix (c := .call) (by rw [opens]; rfl) rfl fun rest => ?_
    rw [List.append_assoc]
    have inside := arguments _ rest .argumentsClose (.inl closes)
    rw [closes] at inside
    exact .of_succ (inside.andThen (.pure _))
  | @index _ _ _ closing _ _ _ opens _ closes left inside =>
    refine left.suffix (c := .index) (by rw [opens]; rfl) rfl fun rest => ?_
    rw [List.append_assoc]
    have ends : bindingAt (closing :: rest) = 0 := binding_of_kind (.inr (.inl closes))
    exact .of_succ ((inside.whole ends).andThen (.expect closes (.pure _)))
  | member _ isDot isName left =>
    exact left.suffix (c := .member) (by rw [isDot]; rfl) rfl fun rest => .of_succ (.expect isName (.pure _))
  | literal literal => exact .primary fun rest => .operand_literal literal
  | group opens _ closes ih =>
    refine .primary fun rest => ?_
    rw [List.cons_append, List.append_assoc]
    exact .operand_group opens (ih.whole (binding_of_kind (.inl closes))) closes
  | lambda _ ih =>
    obtain ⟨word, ys, rfl, isWord, functions⟩ := ih
    exact .primary fun rest => .operand_function isWord (functions rest)
  | array opens _ closes ih =>
    refine .primary fun rest => ?_
    rw [List.cons_append, List.append_assoc]
    have inside := ih _ rest .elementsClose (.inr closes)
    rw [closes] at inside
    exact .operand_array opens inside
  | object opens _ closes ih =>
    refine .primary fun rest => ?_
    rw [List.cons_append, List.append_assoc]
    exact .operand_object opens (ih _ rest closes)
  | listNil => exact fun closing rest fault _ => .of_succ (.accept_some rfl (.pure _))
  | listCons first others ih ih' => exact .listCons first.begins ih others.begins ih'
  | moreNil => exact fun rest noComma _ => .of_succ (.accept_none noComma (.pure _))
  | moreCons isComma _ others ih ih' => exact .moreCons isComma ih others.begins ih'
  | pairsNil => exact fun closing rest closes => .of_succ (.accept_some closes (.pure _))
  | pairsLast isKey isColon _ ih => exact .pairsLast isKey isColon ih
  | pairsCons isKey isColon _ isComma _ ih ih' => exact .pairsCons isKey isColon ih isComma ih'
  | function isWord isName opens names closes begins _ ends ih =>
    exact .function isWord isName opens names closes begins ih ends
  | declared isWord isName =>
    refine ⟨_, _, rfl, isWord, fun rest ends => .of_succ (.expect isName (.accept_none ?_ (.pure _)))⟩
    intro equals
    have equals : kindAt rest = .assign := equals
    have none := ofKind?_of_bindingAt ends
    rw [equals] at none
    cases none
  | initialized isWord isName isEquals _ ih => exact .initialized isWord isName isEquals ih
  | noInitializer closes =>
    intro rest
    refine .of_succ (.look ?_)
    simp only [List.cons_append, List.nil_append, List.head?_cons, Option.getD_some, closes, if_true]
    exact .skip (.pure _)
  | declares _ closes ih => exact .declares ih closes
  | evaluated inside closes ih => exact .evaluated inside.begins ih closes
  | noClause =>
    exact fun rest => ⟨fun closes => .of_succ (.accept_some closes (.pure _)),
      fun closes => .of_succ (.accept_some closes (.pure _))⟩
  | aClause inside ih => exact .aClause inside.begins ih
  | var _ ends ih => exact .var ih ends
  | functionDeclaration _ isName ih => exact .functionDeclaration ih isName
  | ifOnly isWord opens _ closes _ noElse inside ih => exact .ifOnly isWord opens inside closes ih noElse
  | ifElse isWord opens _ closes _ isElse _ inside ih ih' => exact .ifElse isWord opens inside closes ih isElse ih'
  | whileLoop isWord opens _ closes _ inside ih => exact .whileLoop isWord opens inside closes ih
  | forLoop isWord opens _ _ _ _ initial middle last ih => exact .forLoop isWord opens initial middle last ih
  | returnNull isWord ends => exact .returnNull isWord ends
  | returnValue isWord inside ends ih => exact .returnValue isWord inside.begins ih ends
  | block begins _ ends ih => exact .block begins ih ends
  | empty isSemicolon => exact .empty isSemicolon
  | expression inside noBlock noName ends ih =>
    exact .expression inside.begins ih noBlock (fun word => ⟨inside.goesOn word, noName word⟩) ends
  | done => exact .done
  | andThen first _ ih ih' => exact .andThen first ih ih'

end Grammar

end TinyScript
