import TinyScript.Proofs.Grammar.Shape
import TinyScript.Proofs.Parser.Budget

namespace TinyScript

namespace Parser

variable {α β : Type} {p : Parser α} {f : α → Parser β} {P : α → List Token → Prop} {Q : β → List Token → Prop}
  {finish : Location} {source rest : List Token}

/-- Whenever the parser reads something without an error, it and the tokens behind it are as described. -/
def Yields (P : α → List Token → Prop) (p : Parser α) (finish : Location) (source : List Token) : Prop :=
  ∀ a rest, p finish source = .ok a rest [] → P a rest

theorem Yields.bind (first : Yields P p finish source) (later : ∀ a mid, P a mid → Yields Q (f a) finish mid) :
    Yields Q (p >>= f) finish source := by
  intro b rest run
  obtain ⟨a, mid, _, _, run, reply, none⟩ := bind_eq_ok_iff.1 run
  obtain ⟨rfl, rfl⟩ := List.append_eq_nil_iff.1 none.symm
  exact later a mid (first a mid run) b rest reply

theorem Yields.pure {b : β} (holds : Q b source) : Yields Q (pure b) finish source := by
  intro _ _ run
  cases run
  exact holds

theorem Yields.look {f : Token → Parser β}
    (later : Yields Q (f (source.head?.getD (.finish finish))) finish source) :
    Yields Q (Parser.look >>= f) finish source :=
  .bind (P := fun t rest => t = source.head?.getD (.finish finish) ∧ rest = source)
    (by rintro _ _ ⟨⟩; exact ⟨rfl, rfl⟩) (by rintro _ _ ⟨rfl, rfl⟩; exact later)

theorem Yields.lookBehind {f : Token.Kind → Parser β}
    (later : Yields Q (f (source.tail.head?.getD (.finish finish)).kind) finish source) :
    Yields Q (Parser.lookBehind >>= f) finish source :=
  .bind (P := fun kind rest => kind = (source.tail.head?.getD (.finish finish)).kind ∧ rest = source)
    (by rintro _ _ ⟨⟩; exact ⟨rfl, rfl⟩) (by rintro _ _ ⟨rfl, rfl⟩; exact later)

theorem Yields.skip {f : Unit → Parser β} (later : Yields Q (f ()) finish source.tail) :
    Yields Q (Parser.skip >>= f) finish source :=
  .bind (P := fun _ rest => rest = source.tail) (by rintro _ _ ⟨⟩; rfl) (by rintro _ _ rfl; exact later)

theorem Yields.take {fault : GrammarFault} {f : Token → Parser β}
    (later : ∀ t mid, source = t :: mid → Yields Q (f t) finish mid) :
    Yields Q (Parser.take fault >>= f) finish source :=
  .bind (P := fun t mid => source = t :: mid) (by cases source <;> (rintro _ _ ⟨⟩; try rfl)) later

theorem Yields.expect {kind : Token.Kind} {fault : GrammarFault} {f : Token → Parser β}
    (later : ∀ t mid, source = t :: mid → t.kind = kind → Yields Q (f t) finish mid) :
    Yields Q (Parser.expect kind fault >>= f) finish source :=
  .bind (P := fun t mid => source = t :: mid ∧ t.kind = kind)
    (fun _ _ run => ⟨(expect_eq_ok_iff.1 run).2.2, (expect_eq_ok_iff.1 run).2.1⟩)
    fun t mid taken => later t mid taken.1 taken.2

theorem Yields.accept {kind : Token.Kind} {f : Option Token → Parser β}
    (found : ∀ t mid, source = t :: mid → t.kind = kind → Yields Q (f (some t)) finish mid)
    (missing : (source ≠ [] → kindAt source ≠ kind) → Yields Q (f none) finish source) :
    Yields Q (Parser.accept kind >>= f) finish source := by
  refine .bind (P := fun a mid => Parser.accept kind finish source = .ok a mid []) (fun _ _ run => run) ?_
  intro a mid run
  obtain ⟨-, ⟨t, rfl, same, rfl⟩ | ⟨rfl, rfl, other⟩⟩ := accept_eq_ok_iff.1 run
  · exact found t mid rfl same
  · exact missing other

/-- Nothing is left out without an error. -/
theorem Yields.recover {f : Option α → Parser β} (blamed : ∀ resume, p finish source ≠ .failed resume [])
    (first : Yields P p finish source) (later : ∀ a mid, P a mid → Yields Q (f (some a)) finish mid) :
    Yields Q (Parser.recover p >>= f) finish source := by
  refine .bind (P := fun found mid => ∃ a, found = some a ∧ P a mid) (fun found mid run => ?_) ?_
  · cases reply : p finish source with
    | ok a rest errors =>
      rw [recover_eq_some reply] at run
      cases run
      exact ⟨a, rfl, first a _ reply⟩
    | failed resume errors =>
      rw [recover_eq_none reply] at run
      cases run
      exact (blamed _ reply).elim
  · rintro _ mid ⟨a, rfl, holds⟩
    exact later a mid holds

theorem Yields.reject {t : Token} {fault : GrammarFault} : Yields Q (reject t fault) finish source :=
  fun _ _ run => by cases run

theorem Yields.report {t : Token} {fault : GrammarFault} {f : Unit → Parser β} :
    Yields Q (report t fault >>= f) finish source :=
  .bind (P := fun _ _ => False) (fun _ _ run => by cases run) fun _ _ no => no.elim

theorem Yields.statementEnd {fault : GrammarFault} {f : Unit → Parser β}
    (later : ∀ ys rest, source = ys ++ rest → Grammar.End (kindAt rest) ys → Yields Q (f ()) finish rest) :
    Yields Q (Parser.statementEnd fault >>= f) finish source := by
  refine .bind (P := fun _ rest => ∃ ys, source = ys ++ rest ∧ Grammar.End (kindAt rest) ys) (.look ?_)
    fun _ rest ⟨ys, same, ends⟩ => later ys rest same ends
  rw [look_kind]
  split
  · next kind =>
    cases source with
    | nil => cases kind
    | cons t rest =>
      rintro _ _ ⟨⟩
      exact ⟨[t], rfl, .semicolon kind⟩
  · next other =>
    split
    · next last => exact .pure ⟨[], rfl, .omitted last⟩
    · refine .expect fun t mid taken kind => ?_
      rw [taken] at other
      exact absurd kind other

theorem Yields.propertyKey {f : Text → Parser β}
    (later : ∀ t key mid, source = t :: mid → Grammar.Key t key → Yields Q (f key) finish mid) :
    Yields Q (Parser.propertyKey >>= f) finish source := by
  refine .bind (P := fun key mid => ∃ t, source = t :: mid ∧ Grammar.Key t key) (.take fun t mid taken => ?_)
    fun key mid ⟨t, same, isKey⟩ => later t key mid same isKey
  split
  · next kind => exact .pure ⟨t, taken, .identifier kind⟩
  · next kind => exact .pure ⟨t, taken, .string kind⟩
  · next kind => exact .pure ⟨t, taken, .number kind⟩
  · exact .reject

theorem Yields.moreParameters (n : Nat) : ∀ source,
    Yields (fun names rest => ∃ xs, source = xs ++ rest ∧ Grammar.MoreParameters xs names) (moreParameters n)
      finish source := by
  induction n with
  | zero => exact fun _ _ _ run => by cases run
  | succ n ih =>
    intro source
    refine .accept (fun comma mid taken isComma => .expect fun t last found isName => .bind (ih last) ?_)
      fun _ => .pure ⟨[], rfl, .done⟩
    rintro names rest ⟨xs, rfl, others⟩
    exact .pure ⟨comma :: t :: xs, by rw [taken, found]; rfl, .more isComma isName others⟩

theorem Yields.parameters (n : Nat) :
    Yields (fun names rest => ∃ xs closing, source = xs ++ closing :: rest ∧ closing.kind = .rightParen ∧
      Grammar.Parameters xs names) (parameters n) finish source := by
  refine .accept (fun closing rest taken closes => .pure ⟨[], closing, taken, closes, .empty⟩) fun _ =>
    .expect fun t mid taken isName => .bind (.moreParameters n mid) ?_
  rintro names rest ⟨xs, rfl, others⟩
  exact .expect fun closing last found closes =>
    .pure ⟨t :: xs, closing, by rw [taken, found]; rfl, closes, .names isName others⟩

end Parser

namespace Grammar

open TinyScript.Parser

/-- A name that is read as an expression can be assigned to. -/
def Assignable : (nonterminal : Nonterminal) → List Token → nonterminal.Tree → Prop
  | .expr _, xs, .identifier location name => Target xs location name
  | _, _, _ => True

theorem Derives.assignable {nonterminal : Nonterminal} {xs : List Token} {tree : nonterminal.Tree}
    (h : Derives nonterminal xs tree) : Assignable nonterminal xs tree := by
  induction h with
  | @looser upper lower xs e _ _ ih =>
    cases e with
    | identifier location name => exact ih
    | _ => trivial
  | join joins => cases joins <;> trivial
  | literal literal =>
    cases literal with
    | identifier kind => exact .name kind
    | _ => trivial
  | @group xs opening closing e opens _ closes ih =>
    cases e with
    | identifier location name => exact .group opens ih closes
    | _ => trivial
  | _ => trivial

/-- The tokens are an expression of every stratum up to a level. -/
def Reaches (level : Nat) (xs : List Token) (e : Expr) : Prop :=
  ∀ s : Stratum, s.level ≤ level → Derives (.expr s) xs e

variable {xs ys rest : List Token} {e left : Expr} {level : Nat} {t : Token}

theorem Derives.reaches {s : Stratum} (h : Derives (.expr s) xs e) : Reaches s.level xs e :=
  fun wanted looser => h.loosen wanted looser

theorem Reaches.mono {less : Nat} (reaches : Reaches level xs e) (le : less ≤ level) : Reaches less xs e :=
  fun s looser => reaches s (Nat.le_trans looser le)

theorem level_le_nine (c : Connective) : c.level ≤ 9 := by
  cases c with
  | logical op => cases op <;> decide
  | binary op => cases op <;> decide
  | _ => decide

theorem bindingAt_le (source : List Token) : bindingAt source ≤ 9 := by
  unfold bindingAt
  cases Connective.ofKind? (kindAt source) with
  | none => decide
  | some c => exact level_le_nine c

theorem joins_of_logical {kind : Token.Kind} {op : LogicalOperator}
    (found : Connective.ofKind? kind = some (.logical op)) : ∃ upper lower,
      Joins upper lower kind (Expr.logical · op) ∧
      upper.level = (Connective.logical op).level := by
  cases kind <;> simp only [Connective.ofKind?, Option.some.injEq, Connective.logical.injEq, reduceCtorEq] at found
  all_goals
    subst found
    exact ⟨_, _, by constructor, rfl⟩

theorem joins_of_binary {kind : Token.Kind} {op : BinaryOperator}
    (found : Connective.ofKind? kind = some (.binary op)) : ∃ upper lower,
      Joins upper lower kind (Expr.binary · op) ∧
      upper.level = (Connective.binary op).level := by
  cases kind <;> simp only [Connective.ofKind?, Option.some.injEq, Connective.binary.injEq, reduceCtorEq] at found
  all_goals
    subst found
    exact ⟨_, _, by constructor, rfl⟩

theorem kind_of_connective {kind : Token.Kind} {c : Connective} (found : Connective.ofKind? kind = some c) :
    (c = .assign → kind = .assign) ∧ (c = .call → kind = .leftParen) ∧ (c = .index → kind = .leftBracket) ∧
      (c = .member → kind = .dot) := by
  cases kind <;> simp_all [Connective.ofKind?] <;> subst found <;> simp

variable {n : Nat} {source : List Token} {finish : Location}

/-- What a parser has read without an error is derived, and nothing behind it could have carried it on. -/
structure Sound (n : Nat) : Prop where
  expression : ∀ {finish source} level, level ≤ 8 → Enough n n 2 source →
    Yields (fun e rest => ∃ xs, source = xs ++ rest ∧ Reaches (min (level + 1) 8) xs e ∧ bindingAt rest ≤ level)
      (expression n level) finish source
  operand : ∀ {finish source}, Enough n n 1 source →
    Yields (fun e rest => ∃ xs reached, source = xs ++ rest ∧ 8 ≤ reached ∧ Reaches reached xs e ∧
      bindingAt rest ≤ reached) (operand n) finish source
  carryOn : ∀ {finish source xs reached} level left, level ≤ 8 → Enough n n 1 source → Reaches reached xs left →
    bindingAt source ≤ reached → (level + 1 ≤ reached ∨ 8 ≤ reached) →
    Yields (fun e rest => ∃ ys, source = ys ++ rest ∧ Reaches (min (level + 1) 8) (xs ++ ys) e ∧
      bindingAt rest ≤ level) (carryOn n level left) finish source
  connect : ∀ {finish source xs} c (t : Token) left, Enough n n 4 source → Connective.ofKind? t.kind = some c →
    Reaches c.level xs left →
    Yields (fun e rest => ∃ ys, source = ys ++ rest ∧ Reaches c.level (xs ++ t :: ys) e ∧ bindingAt rest ≤ c.level)
      (connect n c t left) finish source
  list : ∀ {finish source} close fault, Enough n n 3 source →
    Yields (fun elements rest => ∃ xs closing, source = xs ++ closing :: rest ∧ closing.kind = close ∧
      Derives .list xs elements) (list n close fault) finish source
  moreExpressions : ∀ {finish source}, Enough n n 1 source →
    Yields (fun elements rest => ∃ xs, source = xs ++ rest ∧ Derives .more xs elements) (moreExpressions n)
      finish source
  pairs : ∀ {finish source}, Enough n n 1 source →
    Yields (fun entries rest => ∃ xs closing, source = xs ++ closing :: rest ∧ closing.kind = .rightBrace ∧
      Derives .pairs xs entries) (pairs n) finish source
  functionLiteral : ∀ {finish source} (word : Token), word.kind = .functionWord → Enough n n 1 source →
    Yields (fun literal rest => ∃ xs, source = xs ++ rest ∧ Derives .function (word :: xs) literal)
      (functionLiteral n word.location) finish source
  blockBody : ∀ {finish source}, Enough n n 5 source →
    Yields (fun body rest => ∃ xs closing, source = xs ++ closing :: rest ∧ closing.kind = .rightBrace ∧
      Derives (.statements .rightBrace) xs body) (blockBody n) finish source
  declaration : ∀ {finish source} (word : Token), word.kind = .varWord → Enough n n 1 source →
    Yields (fun s rest => ∃ xs, source = xs ++ rest ∧ Derives .declaration (word :: xs) s)
      (declaration n word.location) finish source
  initializer : ∀ {finish source}, Enough n n 3 source →
    Yields (fun first rest => ∃ xs, source = xs ++ rest ∧ Derives .initializer xs first) (initializer n)
      finish source
  loopCondition : ∀ {finish source}, Enough n n 3 source →
    Yields (fun e rest => ∃ xs, source = xs ++ rest ∧ Derives (.clause .semicolon) xs e) (loopCondition n)
      finish source
  increment : ∀ {finish source}, Enough n n 3 source →
    Yields (fun e rest => ∃ xs, source = xs ++ rest ∧ Derives (.clause .rightParen) xs e) (increment n)
      finish source
  statement : ∀ {finish source}, Enough n n 4 source →
    Yields (fun s rest => ∃ xs, source = xs ++ rest ∧ Derives (.statement (kindAt rest)) xs s) (statement n)
      finish source
  expressionStatement : ∀ {finish source} (t : Token), t.kind ≠ .leftBrace →
    (t.kind = .functionWord → kindAt source ≠ .identifier) → Enough n n 3 (t :: source) →
    Yields (fun s rest => ∃ xs, t :: source = xs ++ rest ∧ Derives (.statement (kindAt rest)) xs s)
      (expressionStatement n t.location) finish (t :: source)

theorem Sound.whole (ih : Sound n) (enough : Enough n n 2 source) :
    Yields (fun e rest => ∃ xs, source = xs ++ rest ∧ Derives (.expr .expression) xs e) (Parser.expression n 0)
      finish source := by
  rintro e rest run
  obtain ⟨xs, same, reaches, _⟩ := ih.expression 0 (Nat.zero_le _) enough e rest run
  exact ⟨xs, same, reaches .expression (Nat.le_refl _)⟩

theorem Sound.expression_succ (ih : Sound n) (low : level ≤ 8) (enough : Enough (n + 1) (n + 1) 2 source) :
    Yields (fun e rest => ∃ xs, source = xs ++ rest ∧ Reaches (min (level + 1) 8) xs e ∧ bindingAt rest ≤ level)
      (Parser.expression (n + 1) level) finish source := by
  obtain ⟨_, _, same, same', fewer⟩ := enough.succ
  cases same
  cases same'
  refine .bind (ih.operand fewer) ?_
  rintro left mid ⟨xs, reached, rfl, tight, reaches, binding⟩
  refine fun e rest run => ?_
  have shorter : mid.length ≤ (xs ++ mid).length := by simp
  obtain ⟨ys, rfl, whole, ends⟩ := ih.carryOn level left low (fewer.mono shorter (Nat.le_refl _)) reaches binding
    (.inr tight) e rest run
  exact ⟨xs ++ ys, by rw [List.append_assoc], whole, ends⟩

theorem Sound.carryOn_succ {reached : Nat} (ih : Sound n) (left : Expr) (low : level ≤ 8)
    (enough : Enough (n + 1) (n + 1) 1 source) (reaches : Reaches reached xs left)
    (binding : bindingAt source ≤ reached) (tight : level + 1 ≤ reached ∨ 8 ≤ reached) :
    Yields (fun e rest => ∃ ys, source = ys ++ rest ∧ Reaches (min (level + 1) 8) (xs ++ ys) e ∧
      bindingAt rest ≤ level) (Parser.carryOn (n + 1) level left) finish source := by
  obtain ⟨_, _, same, same', fewer⟩ := enough.succ
  cases same
  cases same'
  have stop (loose : bindingAt source ≤ level) : Yields (fun e rest => ∃ ys, source = ys ++ rest ∧
      Reaches (min (level + 1) 8) (xs ++ ys) e ∧ bindingAt rest ≤ level) (pure left) finish source :=
    .pure ⟨[], rfl, by rw [List.append_nil]; exact reaches.mono (by omega), loose⟩
  refine .look ?_
  rw [look_kind]
  split
  · next none => exact stop (by rw [bindingAt_eq_zero none]; exact Nat.zero_le _)
  · next c found =>
    cases source with
    | nil => cases found
    | cons t rest =>
      have bound := bindingAt_eq found rest
      split
      · next tighter =>
        refine .skip (.bind (ih.connect c _ left (fewer.behind (by simp) (by omega)) found
          (reaches.mono (by omega))) ?_)
        rintro whole mid ⟨ys, same, reaches, binding⟩ e last run
        have same : rest = ys ++ mid := same
        have shorter : mid.length < (t :: rest).length := by
          simp only [same, List.length_append, List.length_cons]
          omega
        obtain ⟨zs, rfl, whole, ends⟩ := ih.carryOn level whole low (fewer.behind shorter (by omega)) reaches binding
          (.inl tighter) e last run
        refine ⟨t :: (ys ++ zs), by rw [same]; simp, ?_, ends⟩
        simpa using whole
      · next loose => exact stop (by omega)

theorem Sound.connect_succ (ih : Sound n) (c : Connective) (enough : Enough (n + 1) (n + 1) 4 source)
    (found : Connective.ofKind? t.kind = some c) (reaches : Reaches c.level xs left) :
    Yields (fun e rest => ∃ ys, source = ys ++ rest ∧ Reaches c.level (xs ++ t :: ys) e ∧ bindingAt rest ≤ c.level)
      (Parser.connect (n + 1) c t left) finish source := by
  obtain ⟨_, _, same, same', fewer⟩ := enough.succ
  cases same
  cases same'
  have kinds := kind_of_connective found
  have onward : Enough n n 2 source := fewer.mono (Nat.le_refl _) (by omega)
  cases c with
  | assign =>
    refine .bind (ih.expression 0 (Nat.zero_le _) onward) ?_
    rintro value rest ⟨ys, rfl, value, ends⟩
    split
    · next location name =>
      have target : Target xs location name := (reaches .expression (Nat.le_refl _)).assignable
      have whole := Derives.assign target (kinds.1 rfl) (value .expression (Nat.le_refl _))
      exact .pure ⟨ys, rfl, whole.reaches, Nat.le_trans ends (Nat.zero_le _)⟩
    · exact .report
  | logical op =>
    obtain ⟨upper, lower, joins, same⟩ := joins_of_logical found
    have levels := joins.lower_level
    have few := joins.level_le
    refine .bind (ih.expression _ (by omega) onward) ?_
    rintro right rest ⟨ys, rfl, second, ends⟩
    have whole := Derives.join joins (reaches upper (by omega)) rfl (second lower (by omega))
    exact .pure ⟨ys, rfl, same ▸ whole.reaches, ends⟩
  | binary op =>
    obtain ⟨upper, lower, joins, same⟩ := joins_of_binary found
    have levels := joins.lower_level
    have few := joins.level_le
    refine .bind (ih.expression _ (by omega) onward) ?_
    rintro right rest ⟨ys, rfl, second, ends⟩
    have whole := Derives.join joins (reaches upper (by omega)) rfl (second lower (by omega))
    exact .pure ⟨ys, rfl, same ▸ whole.reaches, ends⟩
  | call =>
    refine .bind (ih.list _ _ fewer) ?_
    rintro arguments rest ⟨ys, closing, rfl, closes, inside⟩
    have whole := Derives.call (reaches .suffixed (Nat.le_refl _)) (kinds.2.1 rfl) inside closes
    exact .pure ⟨ys ++ [closing], by simp, whole.reaches, bindingAt_le _⟩
  | index =>
    refine .bind (ih.whole onward) ?_
    rintro inside mid ⟨ys, rfl, inside⟩
    refine .expect fun closing rest taken closes => ?_
    have whole := Derives.index (reaches .suffixed (Nat.le_refl _)) (kinds.2.2.1 rfl) inside closes
    exact .pure ⟨ys ++ [closing], by simp [taken], whole.reaches, bindingAt_le _⟩
  | member =>
    refine .expect fun name rest taken isName => ?_
    have whole := Derives.member (reaches .suffixed (Nat.le_refl _)) (kinds.2.2.2 rfl) isName
    exact .pure ⟨[name], taken, whole.reaches, bindingAt_le _⟩

theorem Sound.operand_succ (ih : Sound n) (enough : Enough (n + 1) (n + 1) 1 source) :
    Yields (fun e rest => ∃ xs reached, source = xs ++ rest ∧ 8 ≤ reached ∧ Reaches reached xs e ∧
      bindingAt rest ≤ reached) (Parser.operand (n + 1)) finish source := by
  obtain ⟨_, _, same, same', fewer⟩ := enough.succ
  cases same
  cases same'
  refine .take fun t mid taken => ?_
  have behind {more : Nat} (few : more ≤ 8) : Enough n n more mid := fewer.behind (by simp [taken]) (by omega)
  have primary {xs : List Token} {e : Expr} {rest : List Token} (same : mid = xs ++ rest)
      (h : Derives (.expr .primary) (t :: xs) e) : ∃ xs reached, source = xs ++ rest ∧ 8 ≤ reached ∧
      Reaches reached xs e ∧ bindingAt rest ≤ reached :=
    ⟨t :: xs, 10, by rw [taken, same]; rfl, by decide, h.reaches, Nat.le_trans (bindingAt_le rest) (by decide)⟩
  have closed {xs : List Token} {closing : Token} {e : Expr} {rest : List Token} (same : mid = xs ++ closing :: rest)
      (h : Derives (.expr .primary) (t :: (xs ++ [closing])) e) : ∃ xs reached, source = xs ++ rest ∧ 8 ≤ reached ∧
      Reaches reached xs e ∧ bindingAt rest ≤ reached := primary (by rw [same, List.append_assoc]; rfl) h
  have signed (op : UnaryOperator) (sign : Sign t.kind op) :
      Yields (fun e rest => ∃ xs reached, source = xs ++ rest ∧
      8 ≤ reached ∧ Reaches reached xs e ∧ bindingAt rest ≤ reached)
      (do return .unary t.location op (← Parser.expression n Connective.unaryLevel)) finish mid := by
    refine .bind (ih.expression _ (Nat.le_refl _) (behind (by omega))) ?_
    rintro inside rest ⟨xs, rfl, reaches, binding⟩
    have whole := Derives.sign sign (reaches .unary (Nat.le_refl _))
    exact .pure ⟨t :: xs, 8, by rw [taken]; rfl, Nat.le_refl _, whole.reaches, binding⟩
  split
  · next kind => exact .pure (primary rfl (.literal (.identifier kind)))
  · next kind => exact .pure (primary rfl (.literal (.number kind)))
  · next kind => exact .pure (primary rfl (.literal (.string kind)))
  · next kind => exact .pure (primary rfl (.literal (.trueWord kind)))
  · next kind => exact .pure (primary rfl (.literal (.falseWord kind)))
  · next kind => exact .pure (primary rfl (.literal (.nullWord kind)))
  · next kind => exact signed .not (kind ▸ .not)
  · next kind => exact signed .negate (kind ▸ .negate)
  · next opens =>
    refine .bind (ih.whole (behind (by omega))) ?_
    rintro inside rest ⟨xs, rfl, inside⟩
    refine .expect fun closing last found closes => .pure (closed ?_ (.group opens inside closes))
    rw [found]
  · next word =>
    refine .bind (ih.functionLiteral t word (behind (by omega))) ?_
    rintro literal rest ⟨xs, rfl, function⟩
    exact .pure (primary rfl (.lambda function))
  · next opens =>
    refine .bind (ih.list _ _ (behind (by omega))) ?_
    rintro elements rest ⟨xs, closing, rfl, closes, inside⟩
    exact .pure (closed rfl (.array opens inside closes))
  · next opens =>
    refine .bind (ih.pairs (behind (by omega))) ?_
    rintro entries rest ⟨xs, closing, rfl, closes, inside⟩
    exact .pure (closed rfl (.object opens inside closes))
  · exact .reject

theorem Sound.list_succ (ih : Sound n) {close : Token.Kind} {fault : GrammarFault}
    (enough : Enough (n + 1) (n + 1) 3 source) :
    Yields (fun elements rest => ∃ xs closing, source = xs ++ closing :: rest ∧ closing.kind = close ∧
      Derives .list xs elements) (Parser.list (n + 1) close fault) finish source := by
  obtain ⟨_, _, same, same', fewer⟩ := enough.succ
  cases same
  cases same'
  refine .accept (fun closing rest taken closes => .pure ⟨[], closing, taken, closes, .listNil⟩) fun _ => ?_
  refine .bind (ih.whole fewer) ?_
  rintro first mid ⟨xs, rfl, first⟩
  refine .bind (ih.moreExpressions (fewer.mono (by simp) (by omega))) ?_
  rintro more last ⟨ys, rfl, others⟩
  exact .expect fun closing rest taken closes =>
    .pure ⟨xs ++ ys, closing, by simp [taken], closes, .listCons first others⟩

theorem Sound.moreExpressions_succ (ih : Sound n) (enough : Enough (n + 1) (n + 1) 1 source) :
    Yields (fun elements rest => ∃ xs, source = xs ++ rest ∧ Derives .more xs elements)
      (Parser.moreExpressions (n + 1)) finish source := by
  obtain ⟨_, _, same, same', fewer⟩ := enough.succ
  cases same
  cases same'
  refine .accept (fun comma mid taken isComma => ?_) fun _ => .pure ⟨[], rfl, .moreNil⟩
  have behind : Enough n n 2 mid := fewer.behind (by simp [taken]) (by omega)
  refine .bind (ih.whole behind) ?_
  rintro next last ⟨xs, rfl, next⟩
  refine .bind (ih.moreExpressions (behind.mono (by simp) (by omega))) ?_
  rintro more rest ⟨ys, rfl, others⟩
  exact .pure ⟨comma :: (xs ++ ys), by simp [taken], .moreCons isComma next others⟩

theorem Sound.pairs_succ (ih : Sound n) (enough : Enough (n + 1) (n + 1) 1 source) :
    Yields (fun entries rest => ∃ xs closing, source = xs ++ closing :: rest ∧ closing.kind = .rightBrace ∧
      Derives .pairs xs entries) (Parser.pairs (n + 1)) finish source := by
  obtain ⟨_, _, same, same', fewer⟩ := enough.succ
  cases same
  cases same'
  refine .accept (fun closing rest taken closes => .pure ⟨[], closing, taken, closes, .pairsNil⟩) fun _ => ?_
  refine .propertyKey fun t key mid taken isKey => .expect fun colon later found isColon => ?_
  subst taken found
  have behind : Enough n n 2 later := fewer.behind (by simp only [List.length_cons]; omega) (by omega)
  refine .bind (ih.whole behind) ?_
  rintro value last ⟨xs, rfl, value⟩
  refine .accept (fun comma rest taken isComma => ?_) fun _ => .expect fun closing rest taken closes =>
    .pure ⟨t :: colon :: xs, closing, by simp [taken], closes, .pairsLast isKey isColon value⟩
  subst taken
  refine .bind (ih.pairs (behind.mono (by simp only [List.length_append, List.length_cons]; omega) (by omega))) ?_
  rintro more rest ⟨ys, closing, rfl, closes, others⟩
  exact .pure ⟨t :: colon :: (xs ++ comma :: ys), closing,
    by simp, closes, .pairsCons isKey isColon value isComma others⟩

theorem Sound.functionLiteral_succ (ih : Sound n) {word : Token} (isWord : word.kind = .functionWord)
    (enough : Enough (n + 1) (n + 1) 1 source) :
    Yields (fun literal rest => ∃ xs, source = xs ++ rest ∧ Derives .function (word :: xs) literal)
      (Parser.functionLiteral (n + 1) word.location) finish source := by
  obtain ⟨_, _, same, same', fewer⟩ := enough.succ
  cases same
  cases same'
  have tail {name : Text} {ns mid : List Token} {fault : GrammarFault} (same : source = ns ++ mid)
      (isName : Name ns name) : Yields (fun literal rest => ∃ xs, source = xs ++ rest ∧
        Derives .function (word :: xs) literal) (do
      let _ ← expect .leftParen fault
      let names ← Parser.parameters n
      let brace ← expect .leftBrace .bodyOpen
      let body ← Parser.blockBody n
      pure (FunctionLiteral.mk word.location name names brace.location body)) finish mid := by
    refine .expect fun opening inside taken opens => .bind (.parameters n) ?_
    rintro names later ⟨ps, closing, rfl, closes, names⟩
    refine .expect fun brace body found begins => ?_
    subst taken found same
    have behind : Enough n n 5 body := by
      refine fewer.behind ?_ (by omega)
      simp only [List.length_append, List.length_cons]
      omega
    refine .bind (ih.blockBody behind) ?_
    rintro statements rest ⟨xs, last, rfl, ends, body⟩
    exact .pure ⟨ns ++ opening :: (ps ++ closing :: brace :: (xs ++ [last])), by simp,
      .function isWord isName opens names closes begins body ends⟩
  exact .accept (fun name mid taken isName => tail taken (.given isName)) fun _ => tail rfl .missing

theorem Sound.blockBody_succ (ih : Sound n) (enough : Enough (n + 1) (n + 1) 5 source) :
    Yields (fun body rest => ∃ xs closing, source = xs ++ closing :: rest ∧ closing.kind = .rightBrace ∧
      Derives (.statements .rightBrace) xs body) (Parser.blockBody (n + 1)) finish source := by
  obtain ⟨_, _, same, same', fewer⟩ := enough.succ
  cases same
  cases same'
  refine .look ?_
  split
  · exact .expect fun closing rest taken closes => .pure ⟨[], closing, taken, closes, .done⟩
  · refine .recover ((steady n).statement fewer).blamed (ih.statement fewer) ?_
    rintro first mid ⟨xs, rfl, first⟩
    have shorter := List.length_pos_iff.2 first.statement_ne_nil
    refine .bind (ih.blockBody (fewer.behind (by simp only [List.length_append]; omega) (by omega))) ?_
    rintro more rest ⟨ys, closing, rfl, closes, others⟩
    have following : kindAt (ys ++ closing :: rest) = firstKind ys .rightBrace := by
      cases ys <;> simp [firstKind, closes]
    exact .pure ⟨xs ++ ys, closing, by simp, closes, .andThen (following ▸ first) others⟩

theorem Sound.declaration_succ (ih : Sound n) {word : Token} (isWord : word.kind = .varWord)
    (enough : Enough (n + 1) (n + 1) 1 source) :
    Yields (fun s rest => ∃ xs, source = xs ++ rest ∧ Derives .declaration (word :: xs) s)
      (Parser.declaration (n + 1) word.location) finish source := by
  obtain ⟨_, _, same, same', fewer⟩ := enough.succ
  cases same
  cases same'
  refine .expect fun name mid taken isName => .accept (fun equals later found isEquals => ?_) fun _ =>
    .pure ⟨[name], taken, .declared isWord isName⟩
  subst taken found
  refine .bind (ih.whole (fewer.behind (by simp only [List.length_cons]; omega) (by omega))) ?_
  rintro value rest ⟨xs, rfl, value⟩
  exact .pure ⟨name :: equals :: xs, rfl, .initialized isWord isName isEquals value⟩

theorem Sound.initializer_succ (ih : Sound n) (enough : Enough (n + 1) (n + 1) 3 source) :
    Yields (fun first rest => ∃ xs, source = xs ++ rest ∧ Derives .initializer xs first)
      (Parser.initializer (n + 1)) finish source := by
  obtain ⟨_, _, same, same', fewer⟩ := enough.succ
  cases same
  cases same'
  refine .look ?_
  split
  · next closes =>
    cases source with
    | nil => cases closes
    | cons close mid => exact .skip (.pure ⟨[close], rfl, .noInitializer closes⟩)
  · split
    · next isWord =>
      cases source with
      | nil => cases isWord
      | cons word mid =>
        refine .skip (.bind (ih.declaration word isWord (fewer.behind (by simp) (by omega))) ?_)
        rintro s last ⟨xs, same, declares⟩
        refine .expect fun close rest taken closes => .pure ⟨word :: (xs ++ [close]), ?_, .declares declares closes⟩
        rw [taken] at same
        simpa using same
    · refine .bind (ih.whole fewer) ?_
      rintro e last ⟨xs, rfl, inside⟩
      obtain ⟨t, ys, rfl⟩ := List.exists_cons_of_ne_nil inside.expr_ne_nil
      exact .expect fun close rest taken closes =>
        .pure ⟨t :: (ys ++ [close]), by simp [taken], .evaluated inside closes⟩

theorem Sound.loopCondition_succ (ih : Sound n) (enough : Enough (n + 1) (n + 1) 3 source) :
    Yields (fun e rest => ∃ xs, source = xs ++ rest ∧ Derives (.clause .semicolon) xs e)
      (Parser.loopCondition (n + 1)) finish source := by
  obtain ⟨_, _, same, same', fewer⟩ := enough.succ
  cases same
  cases same'
  refine .accept (fun close rest taken closes => .pure ⟨[close], taken, closes ▸ .noClause⟩) fun _ => ?_
  refine .bind (ih.whole fewer) ?_
  rintro e mid ⟨xs, rfl, inside⟩
  exact .expect fun close rest taken closes => .pure ⟨xs ++ [close], by simp [taken], closes ▸ .aClause inside⟩

theorem Sound.increment_succ (ih : Sound n) (enough : Enough (n + 1) (n + 1) 3 source) :
    Yields (fun e rest => ∃ xs, source = xs ++ rest ∧ Derives (.clause .rightParen) xs e)
      (Parser.increment (n + 1)) finish source := by
  obtain ⟨_, _, same, same', fewer⟩ := enough.succ
  cases same
  cases same'
  refine .accept (fun close rest taken closes => .pure ⟨[close], taken, closes ▸ .noClause⟩) fun _ => ?_
  refine .bind (ih.whole fewer) ?_
  rintro e mid ⟨xs, rfl, inside⟩
  exact .expect fun close rest taken closes => .pure ⟨xs ++ [close], by simp [taken], closes ▸ .aClause inside⟩

theorem Sound.expressionStatement_succ (ih : Sound n) (noBlock : t.kind ≠ .leftBrace)
    (noName : t.kind = .functionWord → kindAt source ≠ .identifier)
    (enough : Enough (n + 1) (n + 1) 3 (t :: source)) :
    Yields (fun s rest => ∃ xs, t :: source = xs ++ rest ∧ Derives (.statement (kindAt rest)) xs s)
      (Parser.expressionStatement (n + 1) t.location) finish (t :: source) := by
  obtain ⟨_, _, same, same', fewer⟩ := enough.succ
  cases same
  cases same'
  refine .bind (ih.whole fewer) ?_
  rintro e mid ⟨xs, same, inside⟩
  obtain ⟨u, zs, rfl⟩ := List.exists_cons_of_ne_nil inside.expr_ne_nil
  cases same
  refine .statementEnd fun ys rest found ends => .pure ⟨t :: (zs ++ ys), by simp [found], ?_⟩
  refine .expression inside noBlock (fun word => ?_) ends
  have goesOn : zs ≠ [] := inside.goesOn word
  have other := noName word
  rwa [List.append_eq, kindAt_append goesOn] at other

/-- The condition in parentheses behind a word. -/
theorem Sound.condition {α : Type} {Q : α → List Token → Prop} {openFault closeFault : GrammarFault}
    {f : Expr → Parser α} (ih : Sound n) (enough : Enough n n 2 source)
    (later : ∀ opening cs closing condition mid, source = opening :: (cs ++ closing :: mid) →
      opening.kind = .leftParen → Derives (.expr .expression) cs condition → closing.kind = .rightParen →
      Yields Q (f condition) finish mid) :
    Yields Q (do
      let _ ← expect .leftParen openFault
      let condition ← Parser.expression n 0
      let _ ← expect .rightParen closeFault
      f condition) finish source := by
  refine .expect fun opening inside taken opens =>
    .bind (ih.whole (enough.mono (by simp [taken]) (Nat.le_refl _))) ?_
  rintro condition last ⟨cs, rfl, condition⟩
  exact .expect fun closing mid found closes =>
    later opening cs closing _ mid (by rw [taken, found]) opens condition closes

theorem Sound.statement_succ (ih : Sound n) (enough : Enough (n + 1) (n + 1) 4 source) :
    Yields (fun s rest => ∃ xs, source = xs ++ rest ∧ Derives (.statement (kindAt rest)) xs s)
      (Parser.statement (n + 1)) finish source := by
  obtain ⟨_, _, same, same', fewer⟩ := enough.succ
  cases same
  cases same'
  cases source with
  | nil => exact fun _ _ run => absurd ((forward (n + 1)).statement.length_lt run) (Nat.not_lt_zero _)
  | cons word mid =>
    have behind {more : Nat} {rest : List Token} (shorter : rest.length ≤ mid.length) (few : more ≤ 11) :
        Enough n n more rest := fewer.behind (by simp only [List.length_cons]; omega) (by omega)
    refine .look ?_
    simp only [List.head?_cons, Option.getD_some]
    split
    · next isWord =>
      refine .skip (.bind (ih.declaration word isWord (behind (Nat.le_refl _) (by omega))) ?_)
      rintro s last ⟨xs, same, declares⟩
      refine .statementEnd fun ys rest found ends => .pure ⟨word :: xs ++ ys, ?_, .var declares ends⟩
      rw [found] at same
      simpa using same
    · next isWord =>
      refine .lookBehind ?_
      rw [look_kind]
      split
      · next isName =>
        refine .skip (.bind (ih.functionLiteral word isWord (behind (Nat.le_refl _) (by omega))) ?_)
        rintro literal rest ⟨xs, same, function⟩
        obtain ⟨name, zs, rfl⟩ := List.exists_cons_of_ne_nil function.goesOn
        have same : mid = name :: (zs ++ rest) := same
        refine .pure ⟨word :: name :: zs, by rw [same]; rfl, .functionDeclaration function ?_⟩
        rwa [List.tail_cons, same] at isName
      · next other => exact ih.expressionStatement word (by simp [isWord]) (fun _ => other) fewer
    · next isWord =>
      refine .skip (ih.condition (behind (Nat.le_refl _) (by omega)) ?_)
      rintro opening cs closing condition inner same opens inside closes
      have same : mid = opening :: (cs ++ closing :: inner) := same
      refine .bind (ih.statement
        (behind (by simp only [same, List.length_append, List.length_cons]; omega) (by omega))) ?_
      rintro consequence last ⟨xs, rfl, first⟩
      refine .accept (fun other later taken isElse => ?_) fun noElse => .pure ?_
      · subst taken
        refine .bind (ih.statement
          (behind (by simp only [same, List.length_append, List.length_cons]; omega) (by omega))) ?_
        rintro alternative rest ⟨ys, rfl, second⟩
        refine .pure ⟨word :: opening :: (cs ++ closing :: (xs ++ other :: ys)), by simp [same], ?_⟩
        exact .ifElse isWord opens inside closes (isElse ▸ first) isElse second
      · refine ⟨word :: opening :: (cs ++ closing :: xs),
          by simp [same], .ifOnly isWord opens inside closes first ?_⟩
        cases last with
        | nil => simp
        | cons t rest => exact noElse (List.cons_ne_nil _ _)
    · next isWord =>
      refine .skip (ih.condition (behind (Nat.le_refl _) (by omega)) ?_)
      rintro opening cs closing condition inner same opens inside closes
      have same : mid = opening :: (cs ++ closing :: inner) := same
      refine .bind (ih.statement
        (behind (by simp only [same, List.length_append, List.length_cons]; omega) (by omega))) ?_
      rintro body rest ⟨xs, rfl, body⟩
      exact .pure ⟨word :: opening :: (cs ++ closing :: xs),
        by simp [same], .whileLoop isWord opens inside closes body⟩
    · next isWord =>
      refine .skip (.expect fun opening first taken opens => ?_)
      have taken : mid = opening :: first := taken
      refine .bind (ih.initializer (behind (by simp [taken]) (by omega))) ?_
      rintro initial second ⟨is, rfl, initial⟩
      refine .bind (ih.loopCondition
        (behind (by simp only [taken, List.length_append, List.length_cons]; omega) (by omega))) ?_
      rintro condition third ⟨cs, rfl, condition⟩
      refine .bind (ih.increment
        (behind (by simp only [taken, List.length_append, List.length_cons]; omega) (by omega))) ?_
      rintro step fourth ⟨ns, rfl, step⟩
      refine .bind (ih.statement
        (behind (by simp only [taken, List.length_append, List.length_cons]; omega) (by omega))) ?_
      rintro body rest ⟨xs, rfl, body⟩
      exact .pure ⟨word :: opening :: (is ++ (cs ++ (ns ++ xs))), by simp [taken],
        .forLoop isWord opens initial condition step body⟩
    · next isWord =>
      refine .skip (.look ?_)
      split
      · refine .statementEnd fun ys rest found ends => .pure ⟨word :: ys, ?_, .returnNull isWord ends⟩
        have found : mid = ys ++ rest := found
        rw [found]
        rfl
      · refine .bind (ih.whole (behind (Nat.le_refl _) (by omega))) ?_
        rintro value last ⟨xs, same, value⟩
        have same : mid = xs ++ last := same
        exact .statementEnd fun ys rest found ends =>
          .pure ⟨word :: (xs ++ ys), by simp [same, found], .returnValue isWord value ends⟩
    · next begins =>
      refine .skip (.bind (ih.blockBody (behind (Nat.le_refl _) (by omega))) ?_)
      rintro body rest ⟨xs, closing, same, closes, body⟩
      have same : mid = xs ++ closing :: rest := same
      exact .pure ⟨word :: (xs ++ [closing]), by simp [same], .block begins body closes⟩
    · next isSemicolon => exact .skip (.pure ⟨[word], rfl, .empty isSemicolon⟩)
    · next noFunction _ _ _ _ noBlock _ =>
      exact ih.expressionStatement word noBlock (fun isWord => absurd isWord noFunction) fewer

theorem sound (n : Nat) : Sound n := by
  induction n with
  | zero => constructor <;> intros <;> exact (Enough.not_zero ‹_›).elim
  | succ n ih =>
    exact {
      expression := fun _ => ih.expression_succ
      operand := ih.operand_succ
      carryOn := fun _ left => ih.carryOn_succ left
      connect := fun c _ _ => ih.connect_succ c
      list := fun _ _ => ih.list_succ
      moreExpressions := ih.moreExpressions_succ
      pairs := ih.pairs_succ
      functionLiteral := fun _ => ih.functionLiteral_succ
      blockBody := ih.blockBody_succ
      declaration := fun _ => ih.declaration_succ
      initializer := ih.initializer_succ
      loopCondition := ih.loopCondition_succ
      increment := ih.increment_succ
      statement := ih.statement_succ
      expressionStatement := fun _ => ih.expressionStatement_succ }

theorem statements_sound (n : Nat) : ∀ {source}, Enough n n 5 source →
    Yields (fun body rest => ∃ xs, source = xs ++ rest ∧ kindAt rest = .endOfInput ∧
      Derives (.statements .endOfInput) xs body) (Parser.statements n) finish source := by
  induction n with
  | zero => exact fun enough => (enough.not_zero).elim
  | succ n ih =>
    intro source enough
    obtain ⟨_, _, same, same', fewer⟩ := enough.succ
    cases same
    cases same'
    refine .look ?_
    rw [look_kind]
    split
    · next last => exact .pure ⟨[], rfl, last, .done⟩
    · refine .recover ((steady n).statement fewer).blamed ((sound n).statement fewer) ?_
      rintro first mid ⟨xs, rfl, first⟩
      have shorter := List.length_pos_iff.2 first.statement_ne_nil
      refine .bind (ih (fewer.behind (by simp only [List.length_append]; omega) (by omega))) ?_
      rintro more rest ⟨ys, rfl, last, others⟩
      have following : kindAt (ys ++ rest) = firstKind ys .endOfInput := by cases ys <;> simp [firstKind, last]
      exact .pure ⟨xs ++ ys, by simp, last, .andThen (following ▸ first) others⟩

end Grammar

end TinyScript
