import TinyScript.Evaluation

namespace TinyScript

open Evaluation

/-- What the evaluator can be asked to do. -/
inductive Task where
  | eval (e : Expr)
  | evalAll (values : List Value) (es : List Expr)
  | evalPairs (entries : List (Text × Value)) (pairs : List (Text × Expr))
  | apply (line : Nat) (callee : Value) (arguments : List Value)
  | exec (s : Stmt)
  | execAll (last : Option Value) (stmts : List Stmt)
  | loop (condition : Expr) (body : Stmt)

namespace Task

/-- What a task yields. -/
@[reducible] def Result : Task → Type
  | eval _ | apply _ _ _ => Value
  | evalAll _ _ => List Value
  | evalPairs _ _ => List (Text × Value)
  | exec _ | execAll _ _ | loop _ _ => Completion

def run (n : Nat) (context : Context) : (t : Task) → Run t.Result
  | eval e => Evaluation.eval n context e
  | evalAll values es => Evaluation.evalAll n context values es
  | evalPairs entries pairs => Evaluation.evalPairs n context entries pairs
  | apply line callee arguments => Evaluation.apply n context line callee arguments
  | exec s => Evaluation.exec n context s
  | execAll last stmts => Evaluation.execAll n context last stmts
  | loop condition body => Evaluation.loop n context condition body

end Task

/-- A task that is about to be done. -/
structure Moment where
  context : Context
  task : Task
  state : State

def Moment.run (m : Moment) (n : Nat) : Outcome m.task.Result := m.task.run n m.context m.state

/-- One level of work: it has ended, or it has come to a task and goes on with what the task yields. -/
inductive Step (α : Type) where
  | ended (outcome : Outcome α)
  | part (m : Moment) (next : m.task.Result → State → Step α)

variable {α β : Type}

namespace Step

/-- Goes on when the work is done. -/
def bind : Step α → (α → State → Step β) → Step β
  | ended (.done a st), f => f a st
  | ended (.failed error st), _ => ended (.failed error st)
  | ended .unfinished, _ => ended .unfinished
  | part m next, f => part m fun a st => (next a st).bind f

/-- Does the work. -/
def run (n : Nat) : Step α → Outcome α
  | ended outcome => outcome
  | part m next =>
    match m.run n with
    | .done a st => (next a st).run n
    | .failed error st => .failed error st
    | .unfinished => .unfinished

end Step

/-- A level of work, from any state. -/
def Script (α : Type) : Type := State → Step α

namespace Script

instance : Monad Script where
  pure a := fun st => .ended (.done a st)
  bind x f := fun st => (x st).bind f

/-- What is done without any further task. -/
def own (x : Run α) : Script α := fun st => .ended (x st)

def ask (context : Context) (t : Task) : Script t.Result :=
  fun st => .part ⟨context, t, st⟩ fun a st => .ended (.done a st)

/-- What a script yields becomes the latest value. -/
def keeping (x : Script Value) : Script Value := do
  let value ← x
  own (.keep value)
  pure value

def eval (outer : Context) (e : Expr) : Script Value := keeping <|
  let context := outer.inside
  match e with
  | .identifier location name => own (variableValue context location.line name)
  | .number _ value => pure (.number value)
  | .string _ value => pure (.string value.packed)
  | .boolean _ value => pure (.boolean value)
  | .null _ => pure .null
  | .array _ elements => do
    let values ← ask context (.evalAll [] elements)
    return .array (← own (.creating (·.newArray values.toArray)))
  | .object _ pairs => do
    let entries ← ask context (.evalPairs [] pairs)
    return .object (← own (.creating (·.newObject (.ofList entries))))
  | .function literal => own (functionValue context literal)
  | .assign location name value => do
    let value ← ask context (.eval value)
    own (assignVariable context location.line name value)
    pure value
  | .unary location op operand => do
    let operand ← ask context (.eval operand)
    own (op.apply location.line operand)
  | .binary location op left right => do
    let left ← ask context (.eval left)
    let right ← ask context (.eval right)
    own (op.apply location.line left right)
  | .logical _ op left right => do
    let left ← ask context (.eval left)
    if op.settles left then pure left else ask context (.eval right)
  | .call location callee arguments => do
    let callee ← ask context (.eval callee)
    let arguments ← ask context (.evalAll [] arguments)
    ask context (.apply location.line callee arguments)
  | .index location left index => do
    let left ← ask context (.eval left)
    let index ← ask context (.eval index)
    own (left.at location.line index)

def evalAll (context : Context) (values : List Value) : List Expr → Script (List Value)
  | [] => pure values.reverse
  | e :: more => do
    let value ← ask context (.eval e)
    ask context (.evalAll (value :: values) more)

def evalPairs (context : Context) (entries : List (Text × Value)) : List (Text × Expr) → Script (List (Text × Value))
  | [] => pure entries.reverse
  | (key, e) :: more => do
    let value ← ask context (.eval e)
    ask context (.evalPairs ((key, value) :: entries) more)

/-- Runs the body of a closure in a scope of its own. -/
def enter (context : Context) (closure : Closure) (arguments : List Value) : Script Value := do
  let locals ← own (.creating (·.newScope (some closure.scope)))
  own (.changing (bindParameters locals closure.literal.parameters arguments))
  match ← ask (context.called locals) (.execAll none closure.literal.body) with
  | .returned value => pure value
  | .normal _ => pure .null

def apply (context : Context) (line : Nat) (callee : Value) (arguments : List Value) : Script Value :=
  match callee with
  | .builtin which => own (which.apply context.time line arguments)
  | .closure id => do
    match ← own (.reading (·.closures[id]?)) with
    | none => own (.fail line (.notCallable .function))
    | some closure =>
      let expected := closure.literal.parameters.length
      if arguments.length ≠ expected then own (.fail line (.argumentCount expected arguments.length))
      else if context.isFull then own (.fail line .stackOverflow)
      else enter context closure arguments
  | other => own (.fail line (.notCallable other.kind))

def exec (outer : Context) (s : Stmt) : Script Completion :=
  let context := outer.inside
  match s with
  | .var _ name none => do
    own (.changing (·.define context.scope name .null))
    own withoutValue
  | .var _ name (some e) => do
    let value ← ask context (.eval e)
    own (.changing (·.define context.scope name value))
    own withoutValue
  | .function literal => do
    let closure ← own (.creating (·.newClosure literal context.scope))
    own (.changing (·.define context.scope literal.name (.closure closure)))
    own withoutValue
  | .expression _ e => return .normal (some (← ask context (.eval e)))
  | .returns _ none => do
    own (.keep .null)
    pure (.returned .null)
  | .returns _ (some e) => return .returned (← ask context (.eval e))
  | .block _ body => do
    let inner ← own (.creating (·.newScope (some context.scope)))
    match ← ask { context with scope := inner } (.execAll none body) with
    | .returned value => pure (.returned value)
    | .normal _ => pure (.normal none)
  | .ifElse _ condition consequence alternative => do
    let value ← ask context (.eval condition)
    match if value.truthy then some consequence else alternative with
    | none => own withoutValue
    | some chosen =>
      match ← ask context (.exec chosen) with
      | .returned value => pure (.returned value)
      | .normal _ => own withoutValue
  | .whileLoop _ condition body => ask context (.loop condition body)

def execAll (context : Context) (last : Option Value) : List Stmt → Script Completion
  | [] => pure (.normal last)
  | s :: more => do
    match ← ask context (.exec s) with
    | .returned value => pure (.returned value)
    | .normal value => ask context (.execAll value more)

def loop (context : Context) (condition : Expr) (body : Stmt) : Script Completion := do
  let value ← ask context (.eval condition)
  if value.truthy then
    match ← ask context (.exec body) with
    | .returned value => pure (.returned value)
    | .normal _ => ask context (.loop condition body)
  else own withoutValue

/-- How a task is done. -/
def ofTask (context : Context) : (t : Task) → Script t.Result
  | .eval e => eval context e
  | .evalAll values es => evalAll context values es
  | .evalPairs entries pairs => evalPairs context entries pairs
  | .apply line callee arguments => apply context line callee arguments
  | .exec s => exec context s
  | .execAll last stmts => execAll context last stmts
  | .loop condition body => loop context condition body

def run (n : Nat) (x : Script α) : Run α := fun st => (x st).run n

variable {n : Nat}

theorem run_ask (context : Context) (t : Task) : (ask context t).run n = t.run n context := by
  funext st
  unfold run ask
  rw [Step.run, Moment.run]
  dsimp only
  cases t.run n context st <;> rfl

theorem run_bind (x : Script α) (f : α → Script β) :
    (x >>= f).run n = x.run n >>= fun a => (f a).run n := by
  funext st
  have all (step : Step α) : (step.bind fun a st => f a st).run n =
      ((fun _ => step.run n : Run α) >>= fun a => (f a).run n) st := by
    induction step with
    | ended outcome => cases outcome <;> rfl
    | part m next ih =>
      show Step.run n (.part m _) = Run.bind (fun _ => Step.run n (.part m next)) (fun a => (f a).run n) st
      unfold Run.bind
      rw [Step.run, Step.run]
      cases m.run n with
      | done a st => exact ih a st
      | failed error st => rfl
      | unfinished => rfl
  exact all (x st)

theorem run_keeping (x : Script Value) : (keeping x).run n = .keeping (x.run n) := by
  rw [keeping, run_bind]
  rfl

theorem run_eval (context : Context) (e : Expr) : (eval context e).run n = Evaluation.eval (n + 1) context e := by
  unfold eval Evaluation.eval
  rw [run_keeping]
  cases e with
  | identifier | number | string | boolean | null | function => rfl
  | array | object | assign | unary | binary | call | index =>
    simp only [run_bind, run_ask _ (.eval _), run_ask _ (.evalAll _ _), run_ask _ (.evalPairs _ _),
      run_ask _ (.apply _ _ _)]
    rfl
  | logical =>
    simp only [run_bind, apply_ite (run n), run_ask _ (.eval _)]
    rfl

theorem run_evalAll (context : Context) (values : List Value) (es : List Expr) :
    (evalAll context values es).run n = Evaluation.evalAll (n + 1) context values es := by
  cases es with
  | nil => rfl
  | cons =>
    simp only [evalAll, run_bind, run_ask _ (.eval _), run_ask _ (.evalAll _ _)]
    rfl

theorem run_evalPairs (context : Context) (entries : List (Text × Value)) (pairs : List (Text × Expr)) :
    (evalPairs context entries pairs).run n = Evaluation.evalPairs (n + 1) context entries pairs := by
  cases pairs with
  | nil => rfl
  | cons =>
    simp only [evalPairs, run_bind, run_ask _ (.eval _), run_ask _ (.evalPairs _ _)]
    rfl

theorem run_apply (context : Context) (line : Nat) (callee : Value) (arguments : List Value) :
    (apply context line callee arguments).run n = Evaluation.apply (n + 1) context line callee arguments := by
  unfold apply Evaluation.apply
  cases callee with
  | builtin | null | boolean | number | string | array | object => rfl
  | closure id =>
    dsimp only
    rw [run_bind]
    refine bind_congr fun found => ?_
    cases found with
    | none => rfl
    | some closure =>
      simp only [apply_ite (run n), enter, run_bind, run_ask _ (.execAll _ _)]
      congr 2
      refine bind_congr fun locals => bind_congr fun _ => bind_congr fun completion => ?_
      cases completion <;> rfl

theorem run_exec (context : Context) (s : Stmt) : (exec context s).run n = Evaluation.exec (n + 1) context s := by
  unfold exec Evaluation.exec
  cases s with
  | var location name value =>
    cases value <;> simp only [run_bind, run_ask _ (.eval _)] <;> rfl
  | function =>
    simp only [run_bind]
    rfl
  | expression =>
    simp only [run_bind, run_ask _ (.eval _)]
    rfl
  | returns location value =>
    cases value <;> simp only [run_bind, run_ask _ (.eval _)] <;> rfl
  | block =>
    simp only [run_bind, run_ask _ (.execAll _ _)]
    refine bind_congr fun inner => bind_congr fun completion => ?_
    cases completion <;> rfl
  | ifElse location condition consequence alternative =>
    dsimp only
    rw [run_bind, run_ask _ (.eval _)]
    refine bind_congr fun value => ?_
    generalize (if value.truthy then some consequence else alternative) = chosen
    cases chosen with
    | none => rfl
    | some chosen =>
      simp only [run_bind, run_ask _ (.exec _)]
      refine bind_congr fun completion => ?_
      cases completion <;> rfl
  | whileLoop => exact run_ask _ (.loop _ _)

theorem run_execAll (context : Context) (last : Option Value) (stmts : List Stmt) :
    (execAll context last stmts).run n = Evaluation.execAll (n + 1) context last stmts := by
  unfold execAll Evaluation.execAll
  cases stmts with
  | nil => rfl
  | cons =>
    simp only [run_bind, run_ask _ (.exec _)]
    refine bind_congr fun completion => ?_
    cases completion with
    | returned => rfl
    | normal value => exact run_ask _ (.execAll _ _)

theorem run_loop (context : Context) (condition : Expr) (body : Stmt) :
    (loop context condition body).run n = Evaluation.loop (n + 1) context condition body := by
  unfold loop Evaluation.loop
  simp only [run_bind, apply_ite (run n), run_ask _ (.eval _), run_ask _ (.exec _)]
  refine bind_congr fun value => ?_
  congr 1
  refine bind_congr fun completion => ?_
  cases completion with
  | returned => rfl
  | normal => exact run_ask _ (.loop _ _)

end Script

namespace Moment

/-- One level of the task. -/
def script (m : Moment) : Step m.task.Result := Script.ofTask m.context m.task m.state

/-- The evaluator carries out its scripts. -/
theorem run_succ (m : Moment) (n : Nat) : m.run (n + 1) = m.script.run n := by
  obtain ⟨context, task, st⟩ := m
  have same : (Script.ofTask context task).run n = task.run (n + 1) context := by
    cases task with
    | eval e => exact Script.run_eval context e
    | evalAll values es => exact Script.run_evalAll context values es
    | evalPairs entries pairs => exact Script.run_evalPairs context entries pairs
    | apply line callee arguments => exact Script.run_apply context line callee arguments
    | exec s => exact Script.run_exec context s
    | execAll last stmts => exact Script.run_execAll context last stmts
    | loop condition body => exact Script.run_loop context condition body
  exact (congrFun same st).symm

end Moment

end TinyScript
