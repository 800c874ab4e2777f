import TinyScript.Proofs.Hollow.Runs

namespace TinyScript

variable {α β γ δ : Type}

/-- A task that may bind names in the scope in which it is done. -/
def Task.Binds : Task → Prop
  | exec _ | execAll _ _ | loop _ _ => True
  | _ => False

namespace Seats

variable {p q : Seats} {G : Seats → α → β → Prop} {H : Seats → γ → δ → Prop} {c c' : Context}

/-- Levels of work that end alike, or come to the same task and go on alike. -/
inductive Steps (G : Seats → α → β → Prop) : Seats → Step α → Step β → Prop
  | ended {p : Seats} {o : Outcome α} {o' : Outcome β} : p.Outcomes G o o' → Steps G p (.ended o) (.ended o')
  | part {p q : Seats} {t : Task} {c c' : Context} {st st' : State} {next : t.Result → State → Step α}
    {next' : t.Result → State → Step β} : p.Before q → q.Contexts c c' → (t.Binds → q.Free c.scope c'.scope) →
    q.States st st' → (∀ r a st st', q.Before r → r.States st st' → Steps G r (next a st) (next' a st')) →
    Steps G p (.part ⟨c, t, st⟩ next) (.part ⟨c', t, st'⟩ next')

/-- Without the hollow scopes the second script does what the first one does. -/
def Scripts (p : Seats) (G : Seats → α → β → Prop) (x : Script α) (y : Script β) : Prop :=
  ∀ st st', p.States st st' → Steps G p (x st) (y st')

namespace Steps

theorem mono {step : Step α} {step' : Step β} (steps : Steps G q step step') (before : p.Before q) :
    Steps G p step step' := by
  cases steps with
  | ended outcomes => exact .ended (outcomes.mono before)
  | part later contexts free states next => exact .part (before.trans later) contexts free states next

theorem bind {step : Step α} {step' : Step β} {f : α → State → Step γ} {h : β → State → Step δ}
    (first : Steps G p step step')
    (later : ∀ q a b st st', p.Before q → G q a b → q.States st st' → Steps H q (f a st) (h b st')) :
    Steps H p (step.bind f) (step'.bind h) := by
  induction first with
  | ended both =>
    cases both with
    | done before related states => exact (later _ _ _ _ _ before related states).mono before
    | failed before states => exact .ended (.failed before states)
    | unfinished => exact .ended .unfinished
  | part before contexts free states _ ih =>
    refine .part before contexts free states fun r a st st' further states => ?_
    exact ih r a st st' further states fun q a b st st' last => later q a b st st' (before.trans (further.trans last))

/-- Work is alike when the tasks that it comes to are. -/
theorem run {n : Nat} {step : Step α} {step' : Step β} (steps : Steps G p step step')
    (all : ∀ (q : Seats) (t : Task) (c c' : Context), q.Contexts c c' → (t.Binds → q.Free c.scope c'.scope) →
      q.Runs Same (t.run n c) (t.run n c')) : p.Outcomes G (step.run n) (step'.run n) := by
  induction steps with
  | ended both => exact both
  | @part p q t c c' st st' next next' before contexts free states _ ih =>
    have here := all q t c c' contexts free st st' states
    rw [Step.run, Step.run]
    unfold Moment.run
    dsimp only
    revert here
    generalize t.run n c st = o
    generalize t.run n c' st' = o'
    rintro (⟨further, same, states⟩ | ⟨further, states⟩ | _)
    · cases same
      exact (ih _ _ _ _ further states).mono (before.trans further)
    · exact .failed (before.trans further) states
    · exact .unfinished

end Steps

namespace Scripts

theorem own {x : Run α} {y : Run β} (runs : p.Runs G x y) : p.Scripts G (Script.own x) (Script.own y) :=
  fun st st' states => .ended (runs st st' states)

theorem pure {a : α} {b : β} (related : G p a b) : p.Scripts G (Pure.pure a : Script α) (Pure.pure b) :=
  fun _ _ states => .ended (.done (.refl p) related states)

theorem bind {x : Script α} {y : Script β} {f : α → Script γ} {h : β → Script δ} (first : p.Scripts G x y)
    (later : ∀ q a b, p.Before q → G q a b → q.Scripts H (f a) (h b)) : p.Scripts H (x >>= f) (y >>= h) :=
  fun st st' states => (first st st' states).bind fun q a b st st' before related states =>
    later q a b before related st st' states

/-- Behind what yields the same the scripts go on. -/
theorem behind {x y : Script α} {f h : α → Script β} {H : Seats → β → β → Prop} (first : p.Scripts Same x y)
    (later : ∀ q a, p.Before q → q.Scripts H (f a) (h a)) : p.Scripts H (x >>= f) (y >>= h) :=
  first.bind fun q a b before same => by
    obtain rfl : b = a := same
    exact later q b before

theorem ask (contexts : p.Contexts c c') (t : Task) (free : t.Binds → p.Free c.scope c'.scope) :
    p.Scripts Same (Script.ask c t) (Script.ask c' t) :=
  fun _ _ states => .part (.refl p) contexts free states fun r _ _ _ _ states => .ended (.done (.refl r) rfl states)

theorem keeping {x y : Script Value} (same : p.Scripts Same x y) :
    p.Scripts Same (Script.keeping x) (Script.keeping y) :=
  same.behind fun _ v _ => (own (Runs.keep v)).behind fun _ _ _ => pure rfl

theorem withoutValue : p.Scripts Same (Script.own Evaluation.withoutValue) (Script.own Evaluation.withoutValue) :=
  own Runs.withoutValue

theorem eval (contexts : p.Contexts c c') (e : Expr) : p.Scripts Same (Script.eval c e) (Script.eval c' e) := by
  have inner := contexts.inside
  have asked {q : Seats} (before : p.Before q) (e : Expr) :
      q.Scripts Same (Script.ask c.inside (.eval e)) (Script.ask c'.inside (.eval e)) :=
    ask (inner.mono before) (.eval e) nofun
  refine keeping ?_
  cases e with
  | identifier location name => exact own (Runs.variableValue inner location.line name)
  | number | string | boolean | null => exact pure rfl
  | array _ elements =>
    exact (ask inner (.evalAll [] elements) nofun).behind fun _ vs _ =>
      (own (Runs.newArray vs.toArray)).behind fun _ _ _ => pure rfl
  | object _ pairs =>
    exact (ask inner (.evalPairs [] pairs) nofun).behind fun _ vs _ =>
      (own (Runs.newObject (.ofList vs))).behind fun _ _ _ => pure rfl
  | function literal => exact own (Runs.functionValue inner literal)
  | assign location name value =>
    exact (asked (.refl p) value).behind fun _ v before =>
      (own (Runs.assignVariable (inner.mono before) location.line name v)).behind fun _ _ _ => pure rfl
  | unary location op operand =>
    exact (asked (.refl p) operand).behind fun _ v _ => own (Runs.unary op location.line v)
  | binary location op left right =>
    exact (asked (.refl p) left).behind fun _ v before =>
      (asked before right).behind fun _ w _ => own (Runs.binary op location.line v w)
  | logical _ op left right =>
    refine (asked (.refl p) left).behind fun _ v before => ?_
    split
    · exact pure rfl
    · exact asked before right
  | call location callee arguments =>
    exact (asked (.refl p) callee).behind fun _ v before =>
      (ask (inner.mono before) (.evalAll [] arguments) nofun).behind fun _ vs further =>
        ask (inner.mono (before.trans further)) (.apply location.line v vs) nofun
  | index location left index =>
    exact (asked (.refl p) left).behind fun _ v before =>
      (asked before index).behind fun _ w _ => own (Runs.index location.line v w)

theorem evalAll (contexts : p.Contexts c c') (vs : List Value) (es : List Expr) :
    p.Scripts Same (Script.evalAll c vs es) (Script.evalAll c' vs es) := by
  cases es with
  | nil => exact pure rfl
  | cons e more =>
    exact (ask contexts (.eval e) nofun).behind fun _ v before =>
      ask (contexts.mono before) (.evalAll (v :: vs) more) nofun

theorem evalPairs (contexts : p.Contexts c c') (entries : List (Text × Value)) (pairs : List (Text × Expr)) :
    p.Scripts Same (Script.evalPairs c entries pairs) (Script.evalPairs c' entries pairs) := by
  cases pairs with
  | nil => exact pure rfl
  | cons pair more =>
    exact (ask contexts (.eval pair.2) nofun).behind fun _ v before =>
      ask (contexts.mono before) (.evalPairs ((pair.1, v) :: entries) more) nofun

theorem enter (contexts : p.Contexts c c') {closure closure' : Closure} (closures : p.Closures closure closure')
    (vs : List Value) : p.Scripts Same (Script.enter c closure vs) (Script.enter c' closure' vs) := by
  obtain ⟨literal, scope⟩ := closure
  obtain ⟨literal', scope'⟩ := closure'
  obtain ⟨same, known⟩ := closures
  cases same
  refine (own (Runs.newScope known)).bind fun q locals locals' before free => ?_
  refine (own (Runs.bindParameters free literal.parameters vs)).behind fun r _ further => ?_
  have later := before.trans further
  refine (ask ((contexts.mono later).called (free.known.mono further)) (.execAll none literal.body) fun _ =>
    free.mono further).behind fun _ completion _ => ?_
  cases completion <;> exact pure rfl

theorem apply (contexts : p.Contexts c c') (line : Nat) (v : Value) (vs : List Value) :
    p.Scripts Same (Script.apply c line v vs) (Script.apply c' line v vs) := by
  cases v with
  | builtin which =>
    refine own ?_
    rw [contexts.time]
    exact Runs.builtin which c.time line vs
  | closure id =>
    refine (own (Runs.closure? id)).bind ?_
    rintro q _ _ before (⟨closures⟩ | _)
    · rename_i closure closure'
      dsimp only
      rw [closures.literal, contexts.isFull]
      split
      · exact own Runs.fail
      · split
        · exact own Runs.fail
        · exact enter (contexts.mono before) closures vs
    · exact own Runs.fail
  | _ => exact own Runs.fail

/-- A block needs nothing of the scope in which it is executed. -/
theorem block (contexts : p.Contexts c c') (location : Location) (body : List Stmt) :
    p.Scripts Same (Script.exec c (.block location body)) (Script.exec c' (.block location body)) := by
  refine (own (Runs.newScope contexts.inside.scope)).bind fun q inner inner' before free => ?_
  refine (ask ((contexts.inside.mono before).inScope free.known) (.execAll none body) fun _ => free).behind
    fun _ completion _ => ?_
  cases completion <;> exact pure rfl

theorem exec (contexts : p.Contexts c c') (free : p.Free c.scope c'.scope) (s : Stmt) :
    p.Scripts Same (Script.exec c s) (Script.exec c' s) := by
  have inner := contexts.inside
  cases s with
  | var _ name value =>
    cases value with
    | none => exact (own (Runs.define free name .null)).behind fun _ _ _ => withoutValue
    | some e =>
      exact (ask inner (.eval e) nofun).behind fun _ v before =>
        (own (Runs.define (free.mono before) name v)).behind fun _ _ _ => withoutValue
  | function literal =>
    exact (own (Runs.newClosure inner.scope literal)).behind fun _ closure before =>
      (own (Runs.define (free.mono before) literal.name (.closure closure))).behind fun _ _ _ => withoutValue
  | expression _ e => exact (ask inner (.eval e) nofun).behind fun _ _ _ => pure rfl
  | returns _ value =>
    cases value with
    | none => exact (own (Runs.keep .null)).behind fun _ _ _ => pure rfl
    | some e => exact (ask inner (.eval e) nofun).behind fun _ _ _ => pure rfl
  | block location body => exact block contexts location body
  | ifElse _ condition consequence alternative =>
    refine (ask inner (.eval condition) nofun).behind fun _ v before => ?_
    split
    · exact withoutValue
    · next chosen _ =>
      refine (ask (inner.mono before) (.exec chosen) fun _ => free.mono before).behind fun _ completion _ => ?_
      cases completion with
      | normal => exact withoutValue
      | returned => exact pure rfl
  | whileLoop _ condition body => exact ask inner (.loop condition body) fun _ => free

theorem execAll (contexts : p.Contexts c c') (free : p.Free c.scope c'.scope) (last : Option Value) (ss : List Stmt) :
    p.Scripts Same (Script.execAll c last ss) (Script.execAll c' last ss) := by
  cases ss with
  | nil => exact pure rfl
  | cons s more =>
    refine (ask contexts (.exec s) fun _ => free).behind fun _ completion before => ?_
    cases completion with
    | normal value => exact ask (contexts.mono before) (.execAll value more) fun _ => free.mono before
    | returned => exact pure rfl

theorem loop (contexts : p.Contexts c c') (free : p.Free c.scope c'.scope) (condition : Expr) (body : Stmt) :
    p.Scripts Same (Script.loop c condition body) (Script.loop c' condition body) := by
  refine (ask contexts (.eval condition) nofun).behind fun q v before => ?_
  split
  · refine (ask (contexts.mono before) (.exec body) fun _ => free.mono before).behind fun _ completion further => ?_
    have later := before.trans further
    cases completion with
    | normal => exact ask (contexts.mono later) (.loop condition body) fun _ => free.mono later
    | returned => exact pure rfl
  · exact withoutValue

theorem ofTask (contexts : p.Contexts c c') (t : Task) (free : t.Binds → p.Free c.scope c'.scope) :
    p.Scripts Same (Script.ofTask c t) (Script.ofTask c' t) := by
  cases t with
  | eval e => exact eval contexts e
  | evalAll values es => exact evalAll contexts values es
  | evalPairs entries pairs => exact evalPairs contexts entries pairs
  | apply line callee arguments => exact apply contexts line callee arguments
  | exec s => exact exec contexts (free trivial) s
  | execAll last stmts => exact execAll contexts (free trivial) last stmts
  | loop condition body => exact loop contexts (free trivial) condition body

end Scripts

/-- Without the hollow scopes a task does the same. -/
theorem run (n : Nat) (t : Task) (contexts : p.Contexts c c') (free : t.Binds → p.Free c.scope c'.scope) :
    p.Runs Same (t.run n c) (t.run n c') := by
  induction n generalizing p t c c' with
  | zero =>
    intro st st' _
    have first := Moment.run_zero ⟨c, t, st⟩
    have second := Moment.run_zero ⟨c', t, st'⟩
    rw [Moment.run] at first second
    dsimp only at first second
    rw [first, second]
    exact .unfinished
  | succ n ih =>
    intro st st' states
    have first := Moment.run_succ ⟨c, t, st⟩ n
    have second := Moment.run_succ ⟨c', t, st'⟩ n
    rw [Moment.run] at first second
    dsimp only at first second
    rw [first, second]
    exact ((Scripts.ofTask contexts t free) st st' states).run fun _ t _ _ contexts free => ih t contexts free

/-- Without the hollow scopes a block does the same, also when it is executed in a hollow scope. -/
theorem run_block (n : Nat) (contexts : p.Contexts c c') (location : Location) (body : List Stmt) :
    p.Runs Same (Evaluation.exec n c (.block location body)) (Evaluation.exec n c' (.block location body)) := by
  cases n with
  | zero => exact fun _ _ _ => .unfinished
  | succ n =>
    rw [← Script.run_exec, ← Script.run_exec]
    exact fun st st' states => ((Scripts.block contexts location body) st st' states).run fun _ t _ _ contexts free =>
      run n t contexts free

end Seats

end TinyScript
