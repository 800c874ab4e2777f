import TinyScript.Proofs.Evaluation.Moments
import TinyScript.Proofs.Guise.Runs

namespace TinyScript

variable {α β γ δ : Type}

/-- The task is to call the clock. -/
def Task.callsClock : Task → Bool
  | apply _ (.builtin .clock) _ => true
  | _ => false

namespace Guise

variable (g : Guise)

/-- The same task in another guise. -/
inductive Tasks : Task → Task → Prop
  | eval {e e' : Expr} : g.Like (.expr e) (.expr e') → Tasks (.eval e) (.eval e')
  | evalAll {vs ws : List Value} {es es' : List Expr} : g.SameAll vs ws → g.Like (.exprs es) (.exprs es') →
      Tasks (.evalAll vs es) (.evalAll ws es')
  | evalPairs {vs ws : List (Text × Value)} {ps ps' : List (Text × Expr)} : g.SamePairs vs ws →
      g.Like (.pairs ps) (.pairs ps') → Tasks (.evalPairs vs ps) (.evalPairs ws ps')
  | apply {line line' : Nat} {v w : Value} {vs ws : List Value} : g.Lines line line' → g.Same v w → g.SameAll vs ws →
      Tasks (.apply line v vs) (.apply line' w ws)
  | exec {s s' : Stmt} : g.Like (.stmt s) (.stmt s') → Tasks (.exec s) (.exec s')
  | execAll {last : Option Value} {ss ss' : List Stmt} : g.Like (.stmts ss) (.stmts ss') →
      Tasks (.execAll last ss) (.execAll (last.map g.value) ss')
  | loop {e e' : Expr} {s s' : Stmt} : g.Like (.expr e) (.expr e') → g.Like (.stmt s) (.stmt s') →
      Tasks (.loop e s) (.loop e' s')

/-- Results of tasks that are alike. -/
def Results : (t t' : Task) → t.Result → t'.Result → Prop
  | .eval _, .eval _ | .apply _ _ _, .apply _ _ _ => g.Same
  | .evalAll _ _, .evalAll _ _ => g.SameAll
  | .evalPairs _ _, .evalPairs _ _ => g.SamePairs
  | .exec _, .exec _ | .execAll _ _, .execAll _ _ | .loop _ _, .loop _ _ => g.Completions
  | _, _ => fun _ _ => False

/-- The same moment in another guise. -/
structure Moments (m m' : Moment) : Prop where
  context : g.Contexts m.context m'.context
  task : g.Tasks m.task m'.task
  state : g.States m.state m'.state

/-- Levels of work that end alike, or come to the same task and go on alike. -/
inductive Steps (G : α → β → Prop) : Step α → Step β → Prop
  | ended {o : Outcome α} {o' : Outcome β} : g.Outcomes G o o' → Steps G (.ended o) (.ended o')
  | part {m m' : Moment} {next : m.task.Result → State → Step α} {next' : m'.task.Result → State → Step β} :
      g.Moments m m' →
      (∀ a b st st', g.Results m.task m'.task a b → g.States st st' → Steps G (next a st) (next' b st')) →
      Steps G (.part m next) (.part m' next')

/-- From the same state in another guise the second script does what the first one does. -/
def Scripts (G : α → β → Prop) (x : Script α) (y : Script β) : Prop :=
  ∀ st st', g.States st st' → g.Steps G (x st) (y st')

/-- Where a run calls the clock, the clock of the run in another guise shows the same. -/
def Timely (m : Moment) : Prop :=
  ∀ calls w, Within m calls w → w.task.callsClock = true → g.time w.context.time = w.context.time

variable {g} {G : α → β → Prop} {H : γ → δ → Prop} {c c' : Context} {line line' : Nat}

theorem Steps.bind {step : Step α} {step' : Step β} {f : α → State → Step γ} {h : β → State → Step δ}
    (first : g.Steps G step step')
    (later : ∀ a b st st', G a b → g.States st st' → g.Steps H (f a st) (h b st')) :
    g.Steps H (step.bind f) (step'.bind h) := by
  induction first with
  | ended both =>
    cases both with
    | done related states => exact later _ _ _ _ related states
    | failed errors states => exact .ended (.failed errors states)
    | unfinished => exact .ended .unfinished
  | part moments _ ih => exact .part moments ih

namespace Scripts

theorem own {x : Run α} {y : Run β} (runs : g.Runs G x y) : g.Scripts G (Script.own x) (Script.own y) :=
  fun st st' states => .ended (runs st st' states)

theorem pure {a : α} {b : β} (related : G a b) : g.Scripts G (Pure.pure a : Script α) (Pure.pure b) :=
  fun _ _ states => .ended (.done related states)

theorem bind {x : Script α} {y : Script β} {f : α → Script γ} {h : β → Script δ} (first : g.Scripts G x y)
    (later : ∀ a b, G a b → g.Scripts H (f a) (h b)) : g.Scripts H (x >>= f) (y >>= h) :=
  fun st st' states => (first st st' states).bind fun a b st st' related states => later a b related st st' states

theorem ask {t t' : Task} (contexts : g.Contexts c c') (tasks : g.Tasks t t') :
    g.Scripts (g.Results t t') (Script.ask c t) (Script.ask c' t') :=
  fun _ _ states => .part ⟨contexts, tasks, states⟩ fun _ _ _ _ related states => .ended (.done related states)

theorem keeping {x y : Script Value} (same : g.Scripts g.Same x y) :
    g.Scripts g.Same (Script.keeping x) (Script.keeping y) :=
  same.bind fun _ _ related => (own (Runs.keep related)).bind fun _ _ _ => pure related

theorem withoutValue :
    g.Scripts g.Completions (Script.own Evaluation.withoutValue) (Script.own Evaluation.withoutValue) :=
  own Runs.withoutValue

theorem eval {e e' : Expr} (contexts : g.Contexts c c') (like : g.Like (.expr e) (.expr e')) :
    g.Scripts g.Same (Script.eval c e) (Script.eval c' e') := by
  have inner := contexts.inside
  refine keeping ?_
  cases like with
  | identifier place name => exact own (Runs.variableValue inner ⟨_, _, place, rfl, rfl⟩ name)
  | number | string | boolean | null => exact pure rfl
  | array _ elements =>
    refine (ask inner (.evalAll rfl elements)).bind ?_
    rintro vs _ rfl
    refine (own (Runs.newArray vs)).bind ?_
    rintro id _ rfl
    exact pure rfl
  | object _ pairs =>
    refine (ask inner (.evalPairs rfl pairs)).bind ?_
    rintro vs _ rfl
    refine (own (Runs.newObject vs)).bind ?_
    rintro id _ rfl
    exact pure rfl
  | lambda named like => exact own (Runs.functionValue inner named like)
  | assign place name value =>
    refine (ask inner (.eval value)).bind ?_
    rintro v _ rfl
    exact (own (Runs.assignVariable inner ⟨_, _, place, rfl, rfl⟩ name v)).bind fun _ _ _ => pure rfl
  | unary place operand =>
    refine (ask inner (.eval operand)).bind ?_
    rintro v _ rfl
    exact own (Runs.unary _ ⟨_, _, place, rfl, rfl⟩ v)
  | binary place left right =>
    refine (ask inner (.eval left)).bind ?_
    rintro v _ rfl
    refine (ask inner (.eval right)).bind ?_
    rintro w _ rfl
    exact own (Runs.binary _ ⟨_, _, place, rfl, rfl⟩ v w)
  | @logical _ _ op _ _ _ _ _ left right =>
    refine (ask inner (.eval left)).bind ?_
    rintro v _ rfl
    rw [settles_value]
    split
    · exact pure rfl
    · exact ask inner (.eval right)
  | call place callee arguments =>
    refine (ask inner (.eval callee)).bind ?_
    rintro v _ rfl
    refine (ask inner (.evalAll rfl arguments)).bind ?_
    rintro vs _ rfl
    exact ask inner (.apply ⟨_, _, place, rfl, rfl⟩ rfl rfl)
  | index place left index =>
    refine (ask inner (.eval left)).bind ?_
    rintro v _ rfl
    refine (ask inner (.eval index)).bind ?_
    rintro w _ rfl
    exact own (Runs.index ⟨_, _, place, rfl, rfl⟩ v w)

theorem evalAll {vs ws : List Value} {es es' : List Expr} (contexts : g.Contexts c c') (same : g.SameAll vs ws)
    (like : g.Like (.exprs es) (.exprs es')) :
    g.Scripts g.SameAll (Script.evalAll c vs es) (Script.evalAll c' ws es') := by
  obtain rfl := same
  cases like with
  | noExprs => exact pure List.map_reverse.symm
  | exprs first more =>
    refine (ask contexts (.eval first)).bind ?_
    rintro v _ rfl
    exact ask contexts (.evalAll rfl more)

theorem evalPairs {vs ws : List (Text × Value)} {ps ps' : List (Text × Expr)} (contexts : g.Contexts c c')
    (same : g.SamePairs vs ws) (like : g.Like (.pairs ps) (.pairs ps')) :
    g.Scripts g.SamePairs (Script.evalPairs c vs ps) (Script.evalPairs c' ws ps') := by
  obtain rfl := same
  cases like with
  | noPairs => exact pure List.map_reverse.symm
  | pairs first more =>
    refine (ask contexts (.eval first)).bind ?_
    rintro v _ rfl
    exact ask contexts (.evalPairs rfl more)

theorem enter {closure closure' : Closure} (contexts : g.Contexts c c') (closures : g.Closures closure closure')
    (vs : List Value) :
    g.Scripts g.Same (Script.enter c closure vs) (Script.enter c' closure' (vs.map g.value)) := by
  refine (own (Runs.newScope closures.scope)).bind ?_
  rintro locals _ rfl
  refine (own (Runs.bindParameters closures.literal.function_parameters locals vs)).bind fun _ _ _ => ?_
  refine (ask (contexts.called locals) (.execAll closures.literal.function_body)).bind ?_
  rintro completion _ rfl
  cases completion with
  | normal => exact pure rfl
  | returned v => exact pure rfl

theorem apply (contexts : g.Contexts c c') (lines : g.Lines line line') {v : Value} {vs : List Value}
    (clock : v = .builtin .clock → g.time c.time = c.time) :
    g.Scripts g.Same (Script.apply c line v vs) (Script.apply c' line' (g.value v) (vs.map g.value)) := by
  cases v with
  | builtin which =>
    refine own ?_
    rw [contexts.time]
    exact Runs.builtin (fun same => clock (congrArg Value.builtin same)) lines vs
  | closure id =>
    refine (own (Runs.closure? id)).bind ?_
    rintro _ _ (⟨closures⟩ | _)
    · rename_i closure closure'
      have parameters : closure'.literal.parameters.length = closure.literal.parameters.length :=
        closures.literal.function_parameters.length_eq.symm
      dsimp only
      rw [parameters, List.length_map, contexts.isFull]
      split
      · exact own (Runs.fail lines (.same fun _ => nofun))
      · split
        · exact own (Runs.fail lines (.same fun _ => nofun))
        · exact enter contexts closures vs
    · exact own (Runs.fail lines (.same fun _ => nofun))
  | _ => exact own (Runs.fail lines (.same fun _ => nofun))

/-- What is done once a part has completed. -/
theorem completed {f h : Completion → Script Completion}
    (normal : ∀ value, g.Scripts g.Completions (f (.normal value)) (h (.normal (value.map g.value))))
    (returned : ∀ value, g.Scripts g.Completions (f (.returned value)) (h (.returned (g.value value)))) :
    ∀ a b, g.Completions a b → g.Scripts g.Completions (f a) (h b) := by
  rintro completion _ rfl
  cases completion with
  | normal value => exact normal value
  | returned value => exact returned value

theorem exec {s s' : Stmt} (contexts : g.Contexts c c') (like : g.Like (.stmt s) (.stmt s')) :
    g.Scripts g.Completions (Script.exec c s) (Script.exec c' s') := by
  have inner := contexts.inside
  cases like with
  | varNull _ name => exact (own (Runs.define inner name .null)).bind fun _ _ _ => withoutValue
  | var _ name value =>
    refine (ask inner (.eval value)).bind ?_
    rintro v _ rfl
    exact (own (Runs.define inner name v)).bind fun _ _ _ => withoutValue
  | @declaration f f' name like =>
    refine (own (Runs.newClosure inner like)).bind ?_
    rintro id _ rfl
    have name : g.name f.name f'.name := by rwa [like.function_name]
    exact (own (Runs.define inner name (.closure id))).bind fun _ _ _ => withoutValue
  | expression _ value =>
    refine (ask inner (.eval value)).bind ?_
    rintro v _ rfl
    exact pure rfl
  | returnsNull => exact (own (Runs.keep rfl)).bind fun _ _ _ => pure rfl
  | returns _ value =>
    refine (ask inner (.eval value)).bind ?_
    rintro v _ rfl
    exact pure rfl
  | block _ body =>
    refine (own (Runs.newScope inner.scope)).bind ?_
    rintro scope _ rfl
    exact (ask (inner.inScope scope) (.execAll body)).bind (completed (fun _ => pure rfl) fun _ => pure rfl)
  | ifOnly _ condition consequence =>
    refine (ask inner (.eval condition)).bind ?_
    rintro v _ rfl
    rw [truthy_value]
    cases v.truthy with
    | true => exact (ask inner (.exec consequence)).bind (completed (fun _ => withoutValue) fun _ => pure rfl)
    | false => exact withoutValue
  | ifElse _ condition consequence alternative =>
    refine (ask inner (.eval condition)).bind ?_
    rintro v _ rfl
    rw [truthy_value]
    cases v.truthy with
    | true => exact (ask inner (.exec consequence)).bind (completed (fun _ => withoutValue) fun _ => pure rfl)
    | false => exact (ask inner (.exec alternative)).bind (completed (fun _ => withoutValue) fun _ => pure rfl)
  | whileLoop _ condition body => exact ask inner (.loop condition body)

theorem execAll {last : Option Value} {ss ss' : List Stmt} (contexts : g.Contexts c c')
    (like : g.Like (.stmts ss) (.stmts ss')) :
    g.Scripts g.Completions (Script.execAll c last ss) (Script.execAll c' (last.map g.value) ss') := by
  cases like with
  | noStmts => exact pure rfl
  | stmts first more =>
    exact (ask contexts (.exec first)).bind (completed (fun _ => ask contexts (.execAll more)) fun _ => pure rfl)

theorem loop {e e' : Expr} {s s' : Stmt} (contexts : g.Contexts c c') (condition : g.Like (.expr e) (.expr e'))
    (body : g.Like (.stmt s) (.stmt s')) : g.Scripts g.Completions (Script.loop c e s) (Script.loop c' e' s') := by
  refine (ask contexts (.eval condition)).bind ?_
  rintro v _ rfl
  rw [truthy_value]
  split
  · exact (ask contexts (.exec body)).bind (completed (fun _ => ask contexts (.loop condition body)) fun _ => pure rfl)
  · exact withoutValue

end Scripts

namespace Moments

variable {m m' : Moment}

theorem script (moments : g.Moments m m')
    (clock : m.task.callsClock = true → g.time m.context.time = m.context.time) :
    g.Steps (g.Results m.task m'.task) m.script m'.script := by
  obtain ⟨context, task, st⟩ := m
  obtain ⟨context', task', st'⟩ := m'
  obtain ⟨contexts, tasks, states⟩ := moments
  dsimp only at contexts tasks clock
  suffices scripts : g.Scripts (g.Results task task') (Script.ofTask context task) (Script.ofTask context' task') from
    scripts st st' states
  cases tasks with
  | eval like => exact Scripts.eval contexts like
  | evalAll same like => exact Scripts.evalAll contexts same like
  | evalPairs same like => exact Scripts.evalPairs contexts same like
  | apply lines same arguments =>
    obtain rfl := same
    obtain rfl := arguments
    exact Scripts.apply contexts lines fun builtin => clock (by rw [builtin]; rfl)
  | exec like => exact Scripts.exec contexts like
  | execAll like => exact Scripts.execAll contexts like
  | loop condition body => exact Scripts.loop contexts condition body

end Moments

/-- Work is alike when the tasks that it comes to are. -/
theorem Steps.run {n : Nat} {step : Step α} {step' : Step β} (steps : g.Steps G step step')
    (all : ∀ w w', step.Comes w → g.Moments w w' → g.Outcomes (g.Results w.task w'.task) (w.run n) (w'.run n)) :
    g.Outcomes G (step.run n) (step'.run n) := by
  induction steps with
  | ended both => exact both
  | @part m m' next next' moments _ ih =>
    have here := all m m' .here moments
    rw [Step.run, Step.run]
    generalize m'.run n = o' at here
    cases run : m.run n with
    | done a st =>
      rw [run] at here
      obtain ⟨related, states⟩ := here
      exact ih _ _ _ _ related states fun w w' comes => all w w' (.behind run comes)
    | failed error st =>
      rw [run] at here
      obtain _ | ⟨errors, states⟩ := here
      exact .failed errors states
    | unfinished =>
      rw [run] at here
      cases here
      exact .unfinished

/-- A run in another guise does the same. -/
theorem Moments.run {m m' : Moment} (moments : g.Moments m m') (timely : g.Timely m) (n : Nat) :
    g.Outcomes (g.Results m.task m'.task) (m.run n) (m'.run n) := by
  induction n generalizing m m' with
  | zero =>
    rw [m.run_zero, m'.run_zero]
    exact .unfinished
  | succ n ih =>
    rw [m.run_succ, m'.run_succ]
    refine (moments.script (timely 0 m .start)).run fun w w' comes inner => ?_
    exact ih inner fun calls v within => timely _ v (within.head comes)

end Guise

end TinyScript
