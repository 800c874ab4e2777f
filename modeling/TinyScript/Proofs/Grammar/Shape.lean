import TinyScript.Proofs.Grammar

namespace TinyScript

/-- The kinds of tokens that an expression can begin with. -/
def Token.Kind.beginsExpression : Token.Kind → Bool
  | identifier | number _ | string _ | trueWord | falseWord | nullWord | exclamation | minus | leftParen
  | functionWord | leftBracket | leftBrace => true
  | _ => false

/-- How strongly the connective binds that stands next, if one does. -/
def bindingAt (source : List Token) : Nat := ((Connective.ofKind? (kindAt source)).map (·.level)).getD 0

theorem kindAt_append {xs : List Token} (some : xs ≠ []) (rest : List Token) : kindAt (xs ++ rest) = kindAt xs := by
  cases xs with
  | nil => exact absurd rfl some
  | cons t xs => rfl

theorem bindingAt_eq {t : Token} {c : Connective} (kind : Connective.ofKind? t.kind = some c) (rest : List Token) :
    bindingAt (t :: rest) = c.level := by
  rw [bindingAt, kindAt_cons, kind]
  rfl

theorem bindingAt_eq_zero {source : List Token} (none : Connective.ofKind? (kindAt source) = none) :
    bindingAt source = 0 := by
  rw [bindingAt, none]
  rfl

theorem ofKind?_of_bindingAt {source : List Token} (zero : bindingAt source = 0) :
    Connective.ofKind? (kindAt source) = none := by
  unfold bindingAt at zero
  cases kind : Connective.ofKind? (kindAt source) with
  | none => rfl
  | some c =>
    rw [kind] at zero
    cases c with
    | logical op => cases op <;> cases zero
    | binary op => cases op <;> cases zero
    | _ => cases zero

namespace Grammar

/-- How strongly the operators of a stratum bind, on the scale of connectives. -/
def Stratum.level : Stratum → Nat
  | expression => 1
  | or => 2
  | and => 3
  | equality => 4
  | comparison => 5
  | additive => 6
  | multiplicative => 7
  | unary => 8
  | suffixed => 9
  | primary => 10

theorem Stratum.Includes.level {upper lower : Stratum} (includes : upper.Includes lower) :
    lower.level = upper.level + 1 := by
  cases includes <;> rfl

/-- Tighter expressions are expressions of every looser stratum. -/
theorem Derives.loosen {s : Stratum} {xs : List Token} {e : Expr} (h : Derives (.expr s) xs e) (wanted : Stratum)
    (looser : wanted.level ≤ s.level) : Derives (.expr wanted) xs e := by
  induction gap : s.level - wanted.level generalizing wanted with
  | zero =>
    have same : wanted = s := by cases wanted <;> cases s <;> simp_all [Stratum.level]
    exact same ▸ h
  | succ k ih =>
    obtain ⟨next, includes⟩ : ∃ next, wanted.Includes next := by
      cases wanted
      case primary => cases s <;> simp_all [Stratum.level]
      all_goals exact ⟨_, by constructor⟩
    have level := includes.level
    exact .looser includes (ih next (by omega) (by omega))

theorem Joins.level_le {upper lower : Stratum} {kind : Token.Kind} {make : Location → Expr → Expr → Expr}
    (joins : Joins upper lower kind make) : upper.level ≤ 7 := by
  cases joins <;> decide

theorem Joins.lower_level {upper lower : Stratum} {kind : Token.Kind} {make : Location → Expr → Expr → Expr}
    (joins : Joins upper lower kind make) : lower.level = upper.level + 1 := by
  cases joins <;> rfl

theorem Literal.begins {t : Token} {e : Expr} (literal : Literal t e) : t.kind.beginsExpression := by
  cases literal <;> simp_all [Token.Kind.beginsExpression]

theorem Sign.begins {kind : Token.Kind} {op : UnaryOperator} (sign : Sign kind op) : kind.beginsExpression := by
  cases sign <;> rfl

theorem Target.begins {xs : List Token} {location : Location} {name : Text} (target : Target xs location name) :
    (kindAt xs).beginsExpression := by
  cases target <;> simp_all [Token.Kind.beginsExpression]

/-- A word or a mark that begins a statement and no expression. -/
def StatementMark (kind : Token.Kind) : Prop :=
  kind = .varWord ∨ kind = .ifWord ∨ kind = .whileWord ∨ kind = .forWord ∨ kind = .returnWord ∨ kind = .semicolon

/-- The tokens that a nonterminal begins with. -/
def Begins (xs : List Token) : Nonterminal → Prop
  | .expr _ => (kindAt xs).beginsExpression
  | .more => xs = [] ∨ kindAt xs = .comma
  | .function => kindAt xs = .functionWord
  | .declaration => kindAt xs = .varWord
  | .statement _ => (kindAt xs).beginsExpression ∨ StatementMark (kindAt xs)
  | _ => True

theorem ne_nil_of_beginsExpression {xs : List Token} (begins : (kindAt xs).beginsExpression) : xs ≠ [] := by
  rintro rfl
  cases begins

theorem Derives.begins {nonterminal : Nonterminal} {xs : List Token} {tree : nonterminal.Tree}
    (h : Derives nonterminal xs tree) : Begins xs nonterminal := by
  induction h with
  | looser _ _ ih => exact ih
  | assign target _ _ _ =>
    have begins := target.begins
    rwa [Begins, kindAt_append (ne_nil_of_beginsExpression begins)]
  | join _ _ _ _ ih _ | call _ _ _ _ ih _ | index _ _ _ _ ih _ | member _ _ _ ih =>
    have some := ne_nil_of_beginsExpression ih
    simpa only [Begins, kindAt_append some] using ih
  | sign sign _ _ => exact sign.begins
  | literal literal => exact literal.begins
  | group kind _ _ _ | array kind _ _ _ | object kind _ _ _ =>
    simp [Begins, kind, Token.Kind.beginsExpression]
  | lambda _ ih =>
    have word : kindAt _ = .functionWord := ih
    simp [Begins, word, Token.Kind.beginsExpression]
  | moreNil => exact .inl rfl
  | moreCons comma _ _ _ _ => exact .inr comma
  | function word _ _ _ _ _ _ _ _ => exact word
  | declared word _ | initialized word _ _ _ _ => exact word
  | @var _ xs _ _ _ _ ih =>
    have word : kindAt xs = .varWord := ih
    have some : xs ≠ [] := by
      rintro rfl
      cases word
    rw [Begins, kindAt_append some, word]
    exact .inr (.inl rfl)
  | functionDeclaration _ _ ih =>
    have word : kindAt _ = .functionWord := ih
    rw [Begins, word]
    exact .inl rfl
  | ifOnly word _ _ _ _ _ _ _ | ifElse word _ _ _ _ _ _ _ _ _ | whileLoop word _ _ _ _ _ _
  | forLoop word _ _ _ _ _ _ _ _ _ | returnNull word _ | returnValue word _ _ _ | empty word =>
    refine .inr ?_
    simp [StatementMark, word]
  | block brace _ _ _ => simp [Begins, brace, Token.Kind.beginsExpression]
  | expression _ _ _ _ ih => exact .inl ih
  | _ => trivial

theorem Derives.expr_ne_nil {s : Stratum} {xs : List Token} {e : Expr} (h : Derives (.expr s) xs e) : xs ≠ [] :=
  ne_nil_of_beginsExpression h.begins

theorem Derives.statement_ne_nil {next : Token.Kind} {xs : List Token} {s : Stmt}
    (h : Derives (.statement next) xs s) : xs ≠ [] := by
  rintro rfl
  have begins := h.begins
  simp [Begins, Token.Kind.beginsExpression, StatementMark] at begins

/-- No statement begins where a block or the source ends, or with `else`. -/
theorem Derives.kindAt_statement_ne {next kind : Token.Kind} {xs : List Token} {s : Stmt}
    (h : Derives (.statement next) xs s) (rest : List Token)
    (closing : kind = .rightBrace ∨ kind = .elseWord ∨ kind = .endOfInput) : kindAt (xs ++ rest) ≠ kind := by
  have begins := h.begins
  rw [kindAt_append h.statement_ne_nil]
  rintro rfl
  rcases closing with kind | kind | kind <;>
    simp [Begins, kind, Token.Kind.beginsExpression, StatementMark] at begins

/-- Nonterminals that the word of a function alone does not make. -/
def GoesOn (xs : List Token) : Nonterminal → Prop
  | .expr _ => kindAt xs = .functionWord → xs.tail ≠ []
  | .function => xs.tail ≠ []
  | _ => True

theorem Derives.goesOn {nonterminal : Nonterminal} {xs : List Token} {tree : nonterminal.Tree}
    (h : Derives nonterminal xs tree) : GoesOn xs nonterminal := by
  have append {xs ys : List Token} (left : xs ≠ []) (right : ys ≠ []) : (xs ++ ys).tail ≠ [] := by
    cases xs with
    | nil => exact absurd rfl left
    | cons t xs => simp [right]
  induction h with
  | looser _ _ ih => exact ih
  | assign target _ _ _ => exact fun _ => append (ne_nil_of_beginsExpression target.begins) (List.cons_ne_nil _ _)
  | join _ first _ _ _ _ | call first _ _ _ _ _ | index first _ _ _ _ _ | member first _ _ _ =>
    exact fun _ => append first.expr_ne_nil (List.cons_ne_nil _ _)
  | sign _ inside _ => exact fun _ => inside.expr_ne_nil
  | literal literal =>
    intro word
    cases literal <;> simp_all
  | group | array | object => simp [GoesOn]
  | lambda _ ih => exact fun _ => ih
  | function => simp [GoesOn]
  | _ => trivial

end Grammar

end TinyScript
