import TinyScript.Proofs.Parser.Progress

namespace TinyScript.Parser

variable {α β : Type} {p q : Parser α} {f g : α → Parser β} {finish : Location} {source : List Token}

/-- Two parsers reply alike to a source, and do not fail without an error. -/
structure Agree (p q : Parser α) (finish : Location) (source : List Token) : Prop where
  same : p finish source = q finish source
  blamed : ∀ resume, p finish source ≠ .failed resume []

/-- Every failure has an error. -/
def Blames (p : Parser α) : Prop := ∀ finish source resume, p finish source ≠ .failed resume []

theorem Blames.agree (blames : Blames p) : Agree p p finish source := ⟨rfl, blames finish source⟩

theorem Agree.bind (first : Agree p q finish source)
    (later : ∀ a rest errors, p finish source = .ok a rest errors → Agree (f a) (g a) finish rest) :
    Agree (p >>= f) (q >>= g) finish source where
  same := bind_congr first.same fun a rest errors run => (later a rest errors run).same
  blamed resume run := by
    rcases bind_eq_failed_iff.1 run with run | ⟨a, rest, earlier, last, run, failed, none⟩
    · exact first.blamed resume run
    · obtain ⟨_, rfl⟩ := List.append_eq_nil_iff.1 none.symm
      exact (later a rest earlier run).blamed resume failed

theorem Blames.bind (first : Blames p) (later : ∀ a, Blames (f a)) : Blames (p >>= f) :=
  fun finish source =>
    have agree : Agree p p finish source := first.agree
    (agree.bind fun a _ _ _ => (later a).agree).blamed

theorem Blames.pure (a : α) : Blames (pure a : Parser α) := fun _ _ _ run => by cases run

theorem Blames.look : Blames look := fun _ _ _ run => by cases run

theorem Blames.skip : Blames skip := fun _ _ _ run => by cases run

theorem Blames.report (t : Token) (fault : GrammarFault) : Blames (report t fault) :=
  fun _ _ _ run => by cases run

theorem Blames.reject (t : Token) (fault : GrammarFault) : Blames (reject t fault : Parser α) :=
  fun _ _ _ run => by cases run

theorem Blames.take (fault : GrammarFault) : Blames (take fault) := by
  intro finish source resume run
  cases source <;> cases run

theorem Blames.accept (kind : Token.Kind) : Blames (accept kind) := by
  intro finish source resume run
  unfold Parser.accept at run
  repeat' split at run
  all_goals cases run

theorem Blames.expect (kind : Token.Kind) (fault : GrammarFault) : Blames (expect kind fault) := by
  intro finish source resume run
  unfold Parser.expect at run
  repeat' split at run
  all_goals cases run

theorem Blames.statementEnd (fault : GrammarFault) : Blames (statementEnd fault) := by
  refine .bind .look fun t => ?_
  split
  · exact .skip
  · split
    · exact .pure ()
    · exact .bind (.expect _ _) fun _ => .pure ()

theorem Blames.propertyKey : Blames propertyKey := by
  refine .bind (.take _) fun t => ?_
  split
  case h_4 => exact .reject _ _
  all_goals exact .pure _

theorem Agree.look {f g : Token → Parser β}
    (later : Agree (f (source.head?.getD (.finish finish))) (g (source.head?.getD (.finish finish))) finish source) :
    Agree (Parser.look >>= f) (Parser.look >>= g) finish source := by
  refine (Blames.look.agree).bind fun a rest errors run => ?_
  cases run
  exact later

theorem Agree.lookBehind {f g : Token.Kind → Parser β}
    (later : ∀ kind, Agree (f kind) (g kind) finish source) :
    Agree (Parser.lookBehind >>= f) (Parser.lookBehind >>= g) finish source where
  same := by rw [lookBehind_bind, lookBehind_bind, (later _).same]
  blamed resume run := by
    rw [lookBehind_bind] at run
    exact (later _).blamed resume run

theorem Agree.skip {f g : Unit → Parser β} {t : Token} (later : Agree (f ()) (g ()) finish source) :
    Agree (Parser.skip >>= f) (Parser.skip >>= g) finish (t :: source) := by
  refine (Blames.skip.agree).bind fun a rest errors run => ?_
  cases run
  exact later

/-- Behind a token that was taken, one token less is left. -/
theorem Agree.take {fault : GrammarFault} {f g : Token → Parser β}
    (later : ∀ t rest, source = t :: rest → Agree (f t) (g t) finish rest) :
    Agree (Parser.take fault >>= f) (Parser.take fault >>= g) finish source := by
  refine (Blames.take fault).agree.bind fun t rest errors run => ?_
  cases source with
  | nil => cases run
  | cons u rest =>
    cases run
    exact later _ _ rfl

theorem Agree.expect {kind : Token.Kind} {fault : GrammarFault} {f g : Token → Parser β}
    (later : ∀ t rest, source = t :: rest → Agree (f t) (g t) finish rest) :
    Agree (Parser.expect kind fault >>= f) (Parser.expect kind fault >>= g) finish source := by
  refine (Blames.expect kind fault).agree.bind fun t rest errors run => ?_
  obtain ⟨-, -, rfl⟩ := expect_eq_ok_iff.1 run
  exact later _ _ rfl

/-- Accepting either takes a token or leaves the source as it is. -/
theorem Agree.accept {kind : Token.Kind} {f g : Option Token → Parser β}
    (found : ∀ t rest, source = t :: rest → Agree (f (some t)) (g (some t)) finish rest)
    (missing : Agree (f none) (g none) finish source) :
    Agree (Parser.accept kind >>= f) (Parser.accept kind >>= g) finish source := by
  refine (Blames.accept kind).agree.bind fun a rest errors run => ?_
  rcases accept_eq_ok_iff.1 run with ⟨-, ⟨t, rfl, -, rfl⟩ | ⟨rfl, rfl, -⟩⟩
  · exact found _ _ rfl
  · exact missing

theorem Agree.recover (agree : Agree p q finish source) :
    Agree (Parser.recover p) (Parser.recover q) finish source where
  same := by rw [Parser.recover, Parser.recover, agree.same]
  blamed _ run := recover_ne_failed run

theorem recover_shorter (passes : Passes p) {t : Token} {found : Option α} {rest : List Token}
    {errors : List GrammarError} (run : Parser.recover p finish (t :: source) = .ok found rest errors) :
    rest.length ≤ source.length := by
  have suffix := passes finish t source
  rw [← recover_rest, run] at suffix
  exact suffix.length_le

/-- Two numbers of steps, both enough for the tokens that are left and for `extra` parsers on the way to the
next one. -/
structure Enough (n m extra : Nat) (source : List Token) : Prop where
  left : 8 * source.length + extra ≤ n
  right : 8 * source.length + extra ≤ m

theorem Enough.succ {n m extra : Nat} (enough : Enough n m (extra + 1) source) :
    ∃ k l, n = k + 1 ∧ m = l + 1 ∧ Enough k l extra source := by
  obtain ⟨left, right⟩ := enough
  exact ⟨n - 1, m - 1, by omega, by omega, by omega, by omega⟩

/-- A token that has been taken leaves eight steps more. -/
theorem Enough.behind {n m extra more : Nat} {rest : List Token} (enough : Enough n m extra source)
    (shorter : rest.length < source.length) (few : more ≤ extra + 8) : Enough n m more rest := by
  obtain ⟨left, right⟩ := enough
  exact ⟨by omega, by omega⟩

theorem Enough.mono {n m extra less : Nat} {rest : List Token} (enough : Enough n m extra source)
    (shorter : rest.length ≤ source.length) (few : less ≤ extra) : Enough n m less rest := by
  obtain ⟨left, right⟩ := enough
  exact ⟨by omega, by omega⟩

theorem Enough.not_zero {m extra : Nat} : ¬ Enough 0 m (extra + 1) source := fun enough => by
  have := enough.left
  omega

theorem moreParameters_agree (n : Nat) : ∀ {m finish source}, Enough n m 1 source →
    Agree (moreParameters n) (moreParameters m) finish source := by
  induction n with
  | zero => exact fun enough => (enough.not_zero).elim
  | succ n ih =>
    intro m finish source enough
    obtain ⟨_, m, same, rfl, fewer⟩ := enough.succ
    cases same
    refine .accept (fun comma rest found => .expect fun name later taken => .bind (ih ?_) ?_)
      (Blames.pure _).agree
    · subst found taken
      exact fewer.behind (by simp only [List.length_cons]; omega) (by omega)
    · exact fun _ _ _ _ => (Blames.pure _).agree

theorem parameters_agree {n m : Nat} (enough : Enough n m 1 source) :
    Agree (parameters n) (parameters m) finish source := by
  refine .accept (fun _ _ _ => (Blames.pure _).agree) (.expect fun name rest taken => .bind
    (moreParameters_agree n ?_) fun more later errors run => .expect fun _ _ _ => (Blames.pure _).agree)
  subst taken
  exact enough.behind (by simp) (by omega)

/-- With enough steps every parser agrees with itself on any other number of steps that is enough. The
numbers say how many parsers are entered at most before a token is taken. -/
structure Steady (n : Nat) : Prop where
  expression : ∀ {m finish source} level, Enough n m 2 source →
    Agree (expression n level) (expression m level) finish source
  operand : ∀ {m finish source}, Enough n m 1 source → Agree (operand n) (operand m) finish source
  carryOn : ∀ {m finish source} level left, Enough n m 1 source →
    Agree (carryOn n level left) (carryOn m level left) finish source
  connect : ∀ {m finish source} connective t left, Enough n m 4 source →
    Agree (connect n connective t left) (connect m connective t left) finish source
  list : ∀ {m finish source} close fault, Enough n m 3 source →
    Agree (list n close fault) (list m close fault) finish source
  moreExpressions : ∀ {m finish source}, Enough n m 1 source →
    Agree (moreExpressions n) (moreExpressions m) finish source
  pairs : ∀ {m finish source}, Enough n m 1 source → Agree (pairs n) (pairs m) finish source
  functionLiteral : ∀ {m finish source} location, Enough n m 1 source →
    Agree (functionLiteral n location) (functionLiteral m location) finish source
  blockBody : ∀ {m finish source}, Enough n m 5 source → Agree (blockBody n) (blockBody m) finish source
  declaration : ∀ {m finish source} location, Enough n m 1 source →
    Agree (declaration n location) (declaration m location) finish source
  initializer : ∀ {m finish source}, Enough n m 3 source → Agree (initializer n) (initializer m) finish source
  loopCondition : ∀ {m finish source}, Enough n m 3 source →
    Agree (loopCondition n) (loopCondition m) finish source
  increment : ∀ {m finish source}, Enough n m 3 source → Agree (increment n) (increment m) finish source
  statement : ∀ {m finish source}, Enough n m 4 source → Agree (statement n) (statement m) finish source
  expressionStatement : ∀ {m finish source} location, Enough n m 3 source →
    Agree (expressionStatement n location) (expressionStatement m location) finish source

variable {n m : Nat}

theorem Steady.expression_succ (ih : Steady n) (level : Nat) (enough : Enough (n + 1) m 2 source) :
    Agree (Parser.expression (n + 1) level) (Parser.expression m level) finish source := by
  obtain ⟨_, m, same, rfl, fewer⟩ := enough.succ
  cases same
  exact .bind (ih.operand fewer) fun left rest _ run =>
    ih.carryOn _ _ (fewer.behind ((forward n).operand.length_lt run) (by omega))

theorem Steady.operand_succ (ih : Steady n) (enough : Enough (n + 1) m 1 source) :
    Agree (Parser.operand (n + 1)) (Parser.operand m) finish source := by
  obtain ⟨_, m, same, rfl, fewer⟩ := enough.succ
  cases same
  refine .take fun t rest taken => ?_
  have behind {more : Nat} (few : more ≤ 8) : Enough n m more rest :=
    fewer.behind (by simp [taken]) (by omega)
  split
  case h_7 | h_8 => exact .bind (ih.expression _ (behind (by omega))) fun _ _ _ _ => (Blames.pure _).agree
  case h_9 =>
    exact .bind (ih.expression _ (behind (by omega))) fun _ _ _ _ => .expect fun _ _ _ => (Blames.pure _).agree
  case h_10 => exact .bind (ih.functionLiteral _ (behind (by omega))) fun _ _ _ _ => (Blames.pure _).agree
  case h_11 => exact .bind (ih.list _ _ (behind (by omega))) fun _ _ _ _ => (Blames.pure _).agree
  case h_12 => exact .bind (ih.pairs (behind (by omega))) fun _ _ _ _ => (Blames.pure _).agree
  case h_13 => exact (Blames.reject _ _).agree
  all_goals exact (Blames.pure _).agree

theorem Steady.carryOn_succ (ih : Steady n) (level : Nat) (left : Expr) (enough : Enough (n + 1) m 1 source) :
    Agree (Parser.carryOn (n + 1) level left) (Parser.carryOn m level left) finish source := by
  obtain ⟨_, m, same, rfl, fewer⟩ := enough.succ
  cases same
  refine .look ?_
  cases source with
  | nil => exact (Blames.pure _).agree
  | cons t rest =>
    split
    · exact (Blames.pure _).agree
    · split
      · refine .skip (.bind (ih.connect _ _ _ (fewer.behind (by simp) (by omega))) fun whole later _ run => ?_)
        have shorter := ((forward n).connect _ _ _).length_le run
        exact ih.carryOn _ _ (fewer.behind (by simp only [List.length_cons]; omega) (by omega))
      · exact (Blames.pure _).agree

theorem Steady.connect_succ (ih : Steady n) (connective : Connective) (t : Token) (left : Expr)
    (enough : Enough (n + 1) m 4 source) :
    Agree (Parser.connect (n + 1) connective t left) (Parser.connect m connective t left) finish source := by
  obtain ⟨_, m, same, rfl, fewer⟩ := enough.succ
  cases same
  have onward : Enough n m 2 source := fewer.mono (Nat.le_refl _) (by omega)
  cases connective with
  | assign =>
    refine .bind (ih.expression _ onward) fun value _ _ _ => ?_
    split
    · exact (Blames.pure _).agree
    · exact ((Blames.report _ _).bind fun _ => .pure _).agree
  | logical op => exact .bind (ih.expression _ onward) fun _ _ _ _ => (Blames.pure _).agree
  | binary op => exact .bind (ih.expression _ onward) fun _ _ _ _ => (Blames.pure _).agree
  | call => exact .bind (ih.list _ _ fewer) fun _ _ _ _ => (Blames.pure _).agree
  | index =>
    exact .bind (ih.expression _ onward) fun _ _ _ _ => .expect fun _ _ _ => (Blames.pure _).agree
  | member => exact .expect fun _ _ _ => (Blames.pure _).agree

theorem Steady.list_succ (ih : Steady n) (close : Token.Kind) (fault : GrammarFault)
    (enough : Enough (n + 1) m 3 source) :
    Agree (Parser.list (n + 1) close fault) (Parser.list m close fault) finish source := by
  obtain ⟨_, m, same, rfl, fewer⟩ := enough.succ
  cases same
  refine .accept (fun _ _ _ => (Blames.pure _).agree) (.bind (ih.expression _ fewer) fun first rest _ run => ?_)
  have shorter := ((forward n).expression _).length_lt run
  exact .bind (ih.moreExpressions (fewer.behind shorter (by omega))) fun _ _ _ _ =>
    .expect fun _ _ _ => (Blames.pure _).agree

theorem Steady.moreExpressions_succ (ih : Steady n) (enough : Enough (n + 1) m 1 source) :
    Agree (Parser.moreExpressions (n + 1)) (Parser.moreExpressions m) finish source := by
  obtain ⟨_, m, same, rfl, fewer⟩ := enough.succ
  cases same
  refine .accept (fun comma rest found => ?_) (Blames.pure _).agree
  have behind : Enough n m 2 rest := fewer.behind (by simp [found]) (by omega)
  refine .bind (ih.expression _ behind) fun next later _ run => ?_
  have shorter := ((forward n).expression _).length_lt run
  exact .bind (ih.moreExpressions (behind.mono (Nat.le_of_lt shorter) (by omega))) fun _ _ _ _ =>
    (Blames.pure _).agree

theorem Steady.pairs_succ (ih : Steady n) (enough : Enough (n + 1) m 1 source) :
    Agree (Parser.pairs (n + 1)) (Parser.pairs m) finish source := by
  obtain ⟨_, m, same, rfl, fewer⟩ := enough.succ
  cases same
  refine .accept (fun _ _ _ => (Blames.pure _).agree) ?_
  refine .bind Blames.propertyKey.agree fun key rest _ run => .expect fun colon later taken => ?_
  have shorter := Consumes.propertyKey.length_lt run
  have behind : Enough n m 2 later :=
    fewer.behind (by simp only [taken, List.length_cons] at shorter; omega) (by omega)
  refine .bind (ih.expression _ behind) fun value last _ run => ?_
  have shorter := ((forward n).expression _).length_lt run
  refine .accept (fun comma rest found => ?_) (.expect fun _ _ _ => (Blames.pure _).agree)
  refine .bind (ih.pairs (behind.mono ?_ (by omega))) fun _ _ _ _ => (Blames.pure _).agree
  simp only [found, List.length_cons] at shorter
  omega

theorem Steady.functionLiteral_succ (ih : Steady n) (location : Location) (enough : Enough (n + 1) m 1 source) :
    Agree (Parser.functionLiteral (n + 1) location) (Parser.functionLiteral m location) finish source := by
  obtain ⟨_, m, same, rfl, fewer⟩ := enough.succ
  cases same
  refine (Blames.accept _).agree.bind fun name rest _ run => .expect fun opening inside taken => ?_
  have shorter := (Advances.accept _).length_le run
  have behind : Enough n m 1 inside :=
    fewer.behind (by simp only [taken, List.length_cons] at shorter; omega) (by omega)
  refine .bind (parameters_agree behind) fun names later _ run => .expect fun brace body taken => ?_
  have shorter := (Advances.parameters n).length_le run
  refine .bind (ih.blockBody
    (behind.behind (by simp only [taken, List.length_cons] at shorter; omega) (by omega))) fun _ _ _ _ =>
    (Blames.pure _).agree

theorem Steady.blockBody_succ (ih : Steady n) (enough : Enough (n + 1) m 5 source) :
    Agree (Parser.blockBody (n + 1)) (Parser.blockBody m) finish source := by
  obtain ⟨_, m, same, rfl, fewer⟩ := enough.succ
  cases same
  refine .look ?_
  split
  · exact ((Blames.expect _ _).bind fun _ => .pure _).agree
  · next going =>
    cases source with
    | nil => exact (going (.inr rfl)).elim
    | cons t rest =>
      refine .bind (ih.statement fewer).recover fun first later errors run => ?_
      have shorter := recover_shorter (forward n).statement.cons run
      exact .bind (ih.blockBody (fewer.behind (Nat.lt_succ_of_le shorter) (by omega))) fun _ _ _ _ =>
        (Blames.pure _).agree

theorem Steady.declaration_succ (ih : Steady n) (location : Location) (enough : Enough (n + 1) m 1 source) :
    Agree (Parser.declaration (n + 1) location) (Parser.declaration m location) finish source := by
  obtain ⟨_, m, same, rfl, fewer⟩ := enough.succ
  cases same
  refine .expect fun name rest taken => .accept (fun equals later found => ?_) (Blames.pure _).agree
  exact .bind (ih.expression _ (fewer.behind (by simp only [taken, found, List.length_cons]; omega) (by omega)))
    fun _ _ _ _ =>
    (Blames.pure _).agree

theorem Steady.initializer_succ (ih : Steady n) (enough : Enough (n + 1) m 3 source) :
    Agree (Parser.initializer (n + 1)) (Parser.initializer m) finish source := by
  obtain ⟨_, m, same, rfl, fewer⟩ := enough.succ
  cases same
  refine .look ?_
  split
  · exact (Blames.skip.bind fun _ => .pure _).agree
  · split
    · next word =>
      cases source with
      | nil => cases word
      | cons t rest =>
        exact .skip (.bind (ih.declaration _ (fewer.behind (by simp) (by omega))) fun _ _ _ _ =>
          .expect fun _ _ _ => (Blames.pure _).agree)
    · exact .bind (ih.expression _ fewer) fun _ _ _ _ => .expect fun _ _ _ => (Blames.pure _).agree

theorem Steady.loopCondition_succ (ih : Steady n) (enough : Enough (n + 1) m 3 source) :
    Agree (Parser.loopCondition (n + 1)) (Parser.loopCondition m) finish source := by
  obtain ⟨_, m, same, rfl, fewer⟩ := enough.succ
  cases same
  exact .accept (fun _ _ _ => (Blames.pure _).agree)
    (.bind (ih.expression _ fewer) fun _ _ _ _ => .expect fun _ _ _ => (Blames.pure _).agree)

theorem Steady.increment_succ (ih : Steady n) (enough : Enough (n + 1) m 3 source) :
    Agree (Parser.increment (n + 1)) (Parser.increment m) finish source := by
  obtain ⟨_, m, same, rfl, fewer⟩ := enough.succ
  cases same
  exact .accept (fun _ _ _ => (Blames.pure _).agree)
    (.bind (ih.expression _ fewer) fun _ _ _ _ => .expect fun _ _ _ => (Blames.pure _).agree)

theorem Steady.expressionStatement_succ (ih : Steady n) (location : Location) (enough : Enough (n + 1) m 3 source) :
    Agree (Parser.expressionStatement (n + 1) location) (Parser.expressionStatement m location) finish source := by
  obtain ⟨_, m, same, rfl, fewer⟩ := enough.succ
  cases same
  exact .bind (ih.expression _ fewer) fun _ _ _ _ => ((Blames.statementEnd _).bind fun _ => .pure _).agree

/-- The condition in parentheses behind a word, and what follows. -/
theorem Steady.condition (ih : Steady n) {opening closing : GrammarFault} {f g : Expr → Parser α}
    (enough : Enough n m 4 source)
    (later : ∀ condition rest, rest.length < source.length → Agree (f condition) (g condition) finish rest) :
    Agree (do let _ ← Parser.expect .leftParen opening
              let condition ← Parser.expression n 0
              let _ ← Parser.expect .rightParen closing
              f condition)
      (do let _ ← Parser.expect .leftParen opening
          let condition ← Parser.expression m 0
          let _ ← Parser.expect .rightParen closing
          g condition) finish source := by
  refine .expect fun _ inside taken => ?_
  refine .bind (ih.expression _ (enough.behind (by simp [taken]) (by omega))) fun condition rest _ run =>
    .expect fun _ behind closed => later condition behind ?_
  have shorter := ((forward n).expression _).length_lt run
  simp only [taken, closed, List.length_cons] at shorter ⊢
  omega

theorem Steady.statement_succ (ih : Steady n) (enough : Enough (n + 1) m 4 source) :
    Agree (Parser.statement (n + 1)) (Parser.statement m) finish source := by
  obtain ⟨_, m, same, rfl, fewer⟩ := enough.succ
  cases same
  refine .look ?_
  cases source with
  | nil => exact ih.expressionStatement _ fewer
  | cons t rest =>
    have behind {more : Nat} (few : more ≤ 8) : Enough n m more rest := fewer.behind (by simp) (by omega)
    simp only [List.head?_cons, Option.getD_some]
    split
    · exact .skip (.bind (ih.declaration _ (behind (by omega))) fun _ _ _ _ =>
        ((Blames.statementEnd _).bind fun _ => .pure _).agree)
    · refine .lookBehind fun kind => ?_
      split
      · exact .skip (.bind (ih.functionLiteral _ (behind (by omega))) fun _ _ _ _ => (Blames.pure _).agree)
      · exact ih.expressionStatement _ fewer
    · refine .skip (ih.condition (behind (by omega)) fun condition inside shorter => ?_)
      refine .bind (ih.statement ((behind (Nat.le_refl _)).mono (Nat.le_of_lt shorter) (by omega)))
        fun consequence last _ run => .accept (fun word other found => ?_) (Blames.pure _).agree
      have fewer := (forward n).statement.length_lt run
      refine .bind (ih.statement ((behind (Nat.le_refl _)).mono ?_ (by omega))) fun _ _ _ _ => (Blames.pure _).agree
      simp [found] at fewer
      omega
    · exact .skip (ih.condition (behind (by omega)) fun condition inside shorter =>
        .bind (ih.statement ((behind (Nat.le_refl _)).mono (Nat.le_of_lt shorter) (by omega))) fun _ _ _ _ =>
          (Blames.pure _).agree)
    · refine .skip (.expect fun opening inside taken => ?_)
      have within {more : Nat} {left : List Token} (shorter : left.length ≤ inside.length) (few : more ≤ 8) :
          Enough n m more left :=
        (behind (Nat.le_refl _)).mono (by simp only [taken, List.length_cons]; omega) few
      refine .bind (ih.initializer (within (Nat.le_refl _) (by omega))) fun first second _ run => ?_
      have first := (forward n).initializer.length_le run
      refine .bind (ih.loopCondition (within first (by omega))) fun condition third _ run => ?_
      have second := (forward n).loopCondition.length_le run
      refine .bind (ih.increment (within (by omega) (by omega))) fun step fourth _ run => ?_
      have third := (forward n).increment.length_le run
      exact .bind (ih.statement (within (by omega) (by omega))) fun _ _ _ _ => (Blames.pure _).agree
    · refine .skip (.look ?_)
      split
      · exact ((Blames.statementEnd _).bind fun _ => .pure _).agree
      · exact .bind (ih.expression _ (behind (by omega))) fun _ _ _ _ =>
          ((Blames.statementEnd _).bind fun _ => .pure _).agree
    · exact .skip (.bind (ih.blockBody (behind (by omega))) fun _ _ _ _ => (Blames.pure _).agree)
    · exact .skip (Blames.pure _).agree
    · exact ih.expressionStatement _ fewer

theorem steady (n : Nat) : Steady n := by
  induction n with
  | zero => constructor <;> intros <;> exact (Enough.not_zero ‹_›).elim
  | succ n ih =>
    exact {
      expression := ih.expression_succ
      operand := ih.operand_succ
      carryOn := ih.carryOn_succ
      connect := ih.connect_succ
      list := ih.list_succ
      moreExpressions := ih.moreExpressions_succ
      pairs := ih.pairs_succ
      functionLiteral := ih.functionLiteral_succ
      blockBody := ih.blockBody_succ
      declaration := ih.declaration_succ
      initializer := ih.initializer_succ
      loopCondition := ih.loopCondition_succ
      increment := ih.increment_succ
      statement := ih.statement_succ
      expressionStatement := ih.expressionStatement_succ }

theorem statements_agree (n : Nat) : ∀ {m finish source}, Enough n m 5 source →
    Agree (statements n) (statements m) finish source := by
  induction n with
  | zero => exact fun enough => (enough.not_zero).elim
  | succ n ih =>
    intro m finish source enough
    obtain ⟨_, m, same, rfl, fewer⟩ := enough.succ
    cases same
    refine .look ?_
    split
    · exact (Blames.pure _).agree
    · next going =>
      cases source with
      | nil => exact (going rfl).elim
      | cons t rest =>
        refine .bind ((steady n).statement fewer).recover fun first later errors run => ?_
        have shorter := recover_shorter (forward n).statement.cons run
        exact .bind (ih (fewer.behind (Nat.lt_succ_of_le shorter) (by omega))) fun _ _ _ _ => (Blames.pure _).agree

/-- The reply on any number of steps that is large enough. -/
def Settles (p : Nat → Parser α) (finish : Location) (source : List Token) (r : Reply α) : Prop :=
  ∃ steps, ∀ n, steps ≤ n → p n finish source = r

theorem Settles.unique {p : Nat → Parser α} {r r' : Reply α} (settles : Settles p finish source r)
    (settles' : Settles p finish source r') : r = r' := by
  obtain ⟨steps, reply⟩ := settles
  obtain ⟨steps', reply'⟩ := settles'
  exact (reply _ (Nat.le_max_left steps steps')).symm.trans (reply' _ (Nat.le_max_right steps steps'))

/-- A parser that has as many steps as its source needs has settled. -/
theorem settles_of_agree {p : Nat → Parser α} {extra : Nat}
    (agree : ∀ n {m finish source}, Enough n m extra source → Agree (p n) (p m) finish source) {n : Nat}
    (enough : 8 * source.length + extra ≤ n) : Settles p finish source (p n finish source) :=
  ⟨8 * source.length + extra, fun _ more => (agree _ ⟨more, enough⟩).same⟩

theorem Settles.of_succ {p : Nat → Parser α} {r : Reply α}
    (settles : Settles (fun n => p (n + 1)) finish source r) : Settles p finish source r := by
  obtain ⟨steps, reply⟩ := settles
  refine ⟨steps + 1, fun n enough => ?_⟩
  obtain ⟨k, rfl⟩ : ∃ k, n = k + 1 := ⟨n - 1, by omega⟩
  exact reply k (by omega)

theorem Settles.bind {p : Nat → Parser α} {f : Nat → α → Parser β} {a : α} {rest : List Token}
    {errors : List GrammarError} {r : Reply β} (first : Settles p finish source (.ok a rest errors))
    (later : Settles (fun n => f n a) finish rest r) :
    Settles (fun n => p n >>= f n) finish source (r.behind errors) := by
  obtain ⟨steps, reply⟩ := first
  obtain ⟨steps', reply'⟩ := later
  refine ⟨max steps steps', fun n enough => ?_⟩
  exact (bind_ok (reply n (by omega))).trans (congrArg (·.behind errors) (reply' n (by omega)))

/-- Behind a part without errors the reply is that of the rest. -/
theorem Settles.andThen {p : Nat → Parser α} {f : Nat → α → Parser β} {a : α} {rest : List Token}
    {r : Reply β} (first : Settles p finish source (.ok a rest []))
    (later : Settles (fun n => f n a) finish rest r) : Settles (fun n => p n >>= f n) finish source r := by
  have whole := first.bind later
  rwa [Reply.behind_nil] at whole

theorem Settles.recover_some {p : Nat → Parser α} {a : α} {rest : List Token} {errors : List GrammarError}
    (settles : Settles p finish source (.ok a rest errors)) :
    Settles (fun n => Parser.recover (p n)) finish source (.ok (some a) rest errors) := by
  obtain ⟨steps, reply⟩ := settles
  exact ⟨steps, fun n enough => recover_eq_some (reply n enough)⟩

theorem Settles.recover_none {p : Nat → Parser α} {resume : List Token} {errors : List GrammarError}
    (settles : Settles p finish source (.failed resume errors)) :
    Settles (fun n => Parser.recover (p n)) finish source (.ok none resume errors) := by
  obtain ⟨steps, reply⟩ := settles
  exact ⟨steps, fun n enough => recover_eq_none (reply n enough)⟩

theorem Settles.pure (a : α) : Settles (fun _ => Pure.pure a) finish source (.ok a source []) :=
  ⟨0, fun _ _ => rfl⟩

theorem Settles.map {p : Nat → Parser α} {r : Reply α} (settles : Settles p finish source r) (f : α → β) :
    Settles (fun n => p n >>= fun a => Pure.pure (f a)) finish source (r.map f) := by
  obtain ⟨steps, reply⟩ := settles
  refine ⟨steps, fun n enough => ?_⟩
  cases r with
  | ok a rest errors => simp [bind_ok (reply n enough), Reply.behind, Reply.map]
  | failed resume errors => exact bind_failed (reply n enough)

theorem Settles.look {f : Nat → Token → Parser β} {r : Reply β}
    (later : Settles (fun n => f n (source.head?.getD (.finish finish))) finish source r) :
    Settles (fun n => Parser.look >>= f n) finish source r := Settles.andThen ⟨0, fun _ _ => rfl⟩ later

theorem Settles.lookBehind {f : Nat → Token.Kind → Parser β} {t : Token} {r : Reply β}
    (later : Settles (fun n => f n (kindAt source)) finish (t :: source) r) :
    Settles (fun n => Parser.lookBehind >>= f n) finish (t :: source) r := by
  refine Settles.andThen ⟨0, fun _ _ => ?_⟩ later
  cases source <;> rfl

theorem Settles.skip {f : Nat → Unit → Parser β} {t : Token} {r : Reply β}
    (later : Settles (fun n => f n ()) finish source r) :
    Settles (fun n => Parser.skip >>= f n) finish (t :: source) r := Settles.andThen ⟨0, fun _ _ => rfl⟩ later

theorem Settles.take {fault : GrammarFault} {f : Nat → Token → Parser β} {t : Token} {r : Reply β}
    (later : Settles (fun n => f n t) finish source r) :
    Settles (fun n => Parser.take fault >>= f n) finish (t :: source) r := Settles.andThen ⟨0, fun _ _ => rfl⟩ later

theorem Settles.expect {kind : Token.Kind} {fault : GrammarFault} {t : Token} {f : Nat → Token → Parser β}
    {r : Reply β} (same : t.kind = kind) (later : Settles (fun n => f n t) finish source r) :
    Settles (fun n => Parser.expect kind fault >>= f n) finish (t :: source) r :=
  Settles.andThen ⟨0, fun _ _ => expect_eq_ok same⟩ later

theorem Settles.accept_some {kind : Token.Kind} {t : Token} {f : Nat → Option Token → Parser β}
    {r : Reply β} (same : t.kind = kind) (later : Settles (fun n => f n (some t)) finish source r) :
    Settles (fun n => Parser.accept kind >>= f n) finish (t :: source) r :=
  Settles.andThen ⟨0, fun _ _ => accept_eq_some same⟩ later

theorem Settles.accept_none {kind : Token.Kind} {f : Nat → Option Token → Parser β} {r : Reply β}
    (different : kindAt source ≠ kind) (later : Settles (fun n => f n none) finish source r) :
    Settles (fun n => Parser.accept kind >>= f n) finish source r :=
  Settles.andThen ⟨0, fun _ _ => accept_eq_none different⟩ later

end TinyScript.Parser
