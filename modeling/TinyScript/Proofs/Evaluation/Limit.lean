import TinyScript.Proofs.Evaluation.Depth

namespace TinyScript

open Evaluation

variable {α β : Type}

def Context.limited (limit : Nat) (c : Context) : Context := { c with limit }

def Moment.limited (limit : Nat) (m : Moment) : Moment := { m with context := m.context.limited limit }

/-- The same work with another limit for the tasks in it. -/
def Step.limited (limit : Nat) : Step α → Step α
  | ended outcome => ended outcome
  | part m next => part (m.limited limit) fun a st => (next a st).limited limit

def Script.limited (limit : Nat) (x : Script α) : Script α := fun st => (x st).limited limit

/-- A closure is called with as many arguments as it takes. -/
def Moment.IsCall (m : Moment) : Prop :=
  ∃ line id arguments closure, m.task = .apply line (.closure id) arguments ∧
    m.state.store.closures[id]? = some closure ∧ arguments.length = closure.literal.parameters.length

/-- As many calls are active as may be. -/
def Moment.Refused (m : Moment) : Prop := m.IsCall ∧ m.context.limit ≤ m.context.depth

namespace Script

variable {limit : Nat}

theorem limited_bind (x : Script α) (f : α → Script β) :
    (x >>= f).limited limit = x.limited limit >>= fun a => (f a).limited limit := by
  funext st
  have all (step : Step α) : (step.bind f).limited limit =
      (step.limited limit).bind fun a st => (f a st).limited limit := by
    induction step with
    | ended outcome => cases outcome <;> rfl
    | part m next ih => exact congrArg (Step.part _) (funext fun a => funext fun st => ih a st)
  exact all (x st)

theorem limited_keeping (x : Script Value) : (keeping x).limited limit = keeping (x.limited limit) := by
  rw [keeping, limited_bind]
  rfl

theorem limited_eval (context : Context) (e : Expr) :
    (eval context e).limited limit = eval (context.limited limit) e := by
  unfold eval
  rw [limited_keeping]
  cases e with
  | identifier | number | string | boolean | null | function => rfl
  | logical =>
    simp only [limited_bind, apply_ite (Script.limited limit)]
    rfl
  | _ =>
    simp only [limited_bind]
    rfl

theorem limited_evalAll (context : Context) (values : List Value) (es : List Expr) :
    (evalAll context values es).limited limit = evalAll (context.limited limit) values es := by
  cases es with
  | nil => rfl
  | cons =>
    simp only [evalAll, limited_bind]
    rfl

theorem limited_evalPairs (context : Context) (entries : List (Text × Value)) (pairs : List (Text × Expr)) :
    (evalPairs context entries pairs).limited limit = evalPairs (context.limited limit) entries pairs := by
  cases pairs with
  | nil => rfl
  | cons =>
    simp only [evalPairs, limited_bind]
    rfl

theorem limited_exec (context : Context) (s : Stmt) :
    (exec context s).limited limit = exec (context.limited limit) s := by
  unfold exec
  cases s with
  | var location name value =>
    cases value <;> simp only [limited_bind] <;> rfl
  | returns location value =>
    cases value <;> simp only [limited_bind] <;> rfl
  | block =>
    simp only [limited_bind]
    refine bind_congr fun inner => bind_congr fun completion => ?_
    cases completion <;> rfl
  | ifElse location condition consequence alternative =>
    dsimp only
    rw [limited_bind]
    refine bind_congr fun value => ?_
    generalize (if value.truthy then some consequence else alternative) = chosen
    cases chosen with
    | none => rfl
    | some chosen =>
      simp only [limited_bind]
      refine bind_congr fun completion => ?_
      cases completion <;> rfl
  | _ =>
    simp only [limited_bind]
    rfl

theorem limited_execAll (context : Context) (last : Option Value) (stmts : List Stmt) :
    (execAll context last stmts).limited limit = execAll (context.limited limit) last stmts := by
  cases stmts with
  | nil => rfl
  | cons =>
    simp only [execAll, limited_bind]
    refine bind_congr fun completion => ?_
    cases completion <;> rfl

theorem limited_loop (context : Context) (condition : Expr) (body : Stmt) :
    (loop context condition body).limited limit = loop (context.limited limit) condition body := by
  unfold loop
  simp only [limited_bind, apply_ite (Script.limited limit)]
  refine bind_congr fun value => ?_
  congr 1
  refine bind_congr fun completion => ?_
  cases completion <;> rfl

theorem limited_apply (context : Context) (line : Nat) (callee : Value) (arguments : List Value)
    (same : (context.limited limit).isFull = context.isFull) :
    (apply context line callee arguments).limited limit = apply (context.limited limit) line callee arguments := by
  unfold apply
  cases callee with
  | builtin | null | boolean | number | string | array | object => rfl
  | closure id =>
    dsimp only
    rw [limited_bind]
    refine bind_congr fun found => ?_
    cases found with
    | none => rfl
    | some closure =>
      simp only [enter, limited_bind, apply_ite (Script.limited limit), same]
      congr 2
      refine bind_congr fun locals => bind_congr fun _ => bind_congr fun completion => ?_
      cases completion <;> rfl

/-- How a closure is called. -/
theorem apply_closure (context : Context) (line : Nat) (id : ClosureId) (arguments : List Value) (st : State) :
    apply context line (.closure id) arguments st =
      (match st.store.closures[id]? with
        | none => own (.fail line (.notCallable .function))
        | some closure =>
          if arguments.length ≠ closure.literal.parameters.length then
            own (.fail line (.argumentCount closure.literal.parameters.length arguments.length))
          else if context.isFull then own (.fail line .stackOverflow)
          else enter context closure arguments) st :=
  rfl

end Script

namespace Moment

variable {m : Moment} {limit : Nat}

theorem script_of_refused (refused : m.Refused) :
    ∃ line, m.script = .ended (.failed ⟨line, .stackOverflow⟩ m.state) := by
  obtain ⟨context, task, st⟩ := m
  obtain ⟨⟨line, id, arguments, closure, rfl, found, count⟩, full⟩ := refused
  have full : context.isFull := by simp [Context.isFull, full]
  refine ⟨line, (Script.apply_closure context line id arguments st).trans ?_⟩
  rw [found]
  dsimp only
  rw [if_neg (fun other => other count), if_pos full]
  rfl

/-- A call comes to the body of the closure, or fails because there is no place for it. -/
theorem IsCall.comes (call : m.IsCall) :
    (∃ line, m.script = .ended (.failed ⟨line, .stackOverflow⟩ m.state)) ∨ ∃ body, m.script.Comes body := by
  obtain ⟨context, task, st⟩ := m
  obtain ⟨line, id, arguments, closure, rfl, found, count⟩ := call
  have script : (⟨context, .apply line (.closure id) arguments, st⟩ : Moment).script = _ :=
    Script.apply_closure context line id arguments st
  rw [script, found]
  dsimp only
  rw [if_neg (fun other => other count)]
  split
  · exact .inl ⟨line, rfl⟩
  · exact .inr ⟨_, .here⟩

/-- With a higher limit a task is done the same way, or it is a call that the lower limit refuses. -/
theorem script_limited (m : Moment) (le : m.context.limit ≤ limit) :
    m.Refused ∨ (m.limited limit).script = m.script.limited limit := by
  obtain ⟨context, task, st⟩ := m
  cases task with
  | eval e => exact .inr (congrFun (Script.limited_eval context e) st).symm
  | evalAll values es => exact .inr (congrFun (Script.limited_evalAll context values es) st).symm
  | evalPairs entries pairs => exact .inr (congrFun (Script.limited_evalPairs context entries pairs) st).symm
  | apply line callee arguments =>
    by_cases same : (context.limited limit).isFull = context.isFull
    · exact .inr (congrFun (Script.limited_apply context line callee arguments same) st).symm
    · have full : context.limit ≤ context.depth := by
        refine Nat.le_of_not_lt fun free => same ?_
        have low := decide_eq_false (Nat.not_le_of_lt free)
        have high := decide_eq_false (Nat.not_le_of_lt (Nat.lt_of_lt_of_le free le))
        show (decide (limit ≤ context.depth) || decide (context.room = 0)) = context.isFull
        rw [Context.isFull, low, high]
      by_cases call : IsCall ⟨context, .apply line callee arguments, st⟩
      · exact .inl ⟨call, full⟩
      · refine .inr ?_
        show Script.apply (context.limited limit) line callee arguments st =
          (Script.apply context line callee arguments st).limited limit
        cases callee with
        | closure id =>
          rw [Script.apply_closure, Script.apply_closure]
          cases found : st.store.closures[id]? with
          | none => rfl
          | some closure =>
            have count : arguments.length ≠ closure.literal.parameters.length :=
              fun count => call ⟨line, id, arguments, closure, rfl, found, count⟩
            dsimp only
            rw [if_pos count, if_pos count]
            rfl
        | _ => rfl
  | exec s => exact .inr (congrFun (Script.limited_exec context s) st).symm
  | execAll last stmts => exact .inr (congrFun (Script.limited_execAll context last stmts) st).symm
  | loop condition body => exact .inr (congrFun (Script.limited_loop context condition body) st).symm

/-- A run fails at a call that its limit refuses. The run with the other limit comes to this call, with some calls
around it. -/
structure FailsAt (m : Moment) (limit n k : Nat) (w : Moment) : Prop where
  refused : w.Refused
  limit_eq : w.context.limit = m.context.limit
  within : Within (m.limited limit) k (w.limited limit)
  fails : ∃ line, m.run n = .failed ⟨line, .stackOverflow⟩ w.state

theorem step_limited {n calls : Nat} {outer : Context} {step : Step α} {st : State}
    (all : ∀ p : Moment, p.context.limit = outer.limit →
      (p.limited limit).run n = p.run n ∨ ∃ k w, p.FailsAt limit n k w)
    (keeps : step.Keeps State.Prints (Inside outer calls) st) : (step.limited limit).run n = step.run n ∨
      ∃ (p : Moment) (k : Nat) (w : Moment), (step.limited limit).Comes (p.limited limit) ∧
        p.context.limit = outer.limit ∧ p.FailsAt limit n k w ∧
        ∃ line, step.run n = .failed ⟨line, .stackOverflow⟩ w.state := by
  induction step generalizing st with
  | ended outcome => exact .inl rfl
  | part p next ih =>
    obtain ⟨_, inside, later⟩ := keeps
    rw [Step.limited, Step.run, Step.run]
    rcases all p inside.limit with same | ⟨k, w, fails⟩
    · rw [same]
      cases run : p.run n with
      | done a between =>
        refine (ih a between (later a between (kept_prints.run_done run))).imp_right ?_
        rintro ⟨q, k, w, comes, rest⟩
        exact ⟨q, k, w, .behind (same.trans run) comes, rest⟩
      | failed error between => exact .inl rfl
      | unfinished => exact .inl rfl
    · obtain ⟨line, failed⟩ := fails.fails
      refine .inr ⟨p, k, w, .here, inside.limit, fails, line, ?_⟩
      rw [failed]

/-- With a higher limit a run is the same, or it goes on where the one with the lower limit fails. -/
theorem run_limited (m : Moment) (n : Nat) (le : m.context.limit ≤ limit) :
    (m.limited limit).run n = m.run n ∨ ∃ k w, m.FailsAt limit n k w := by
  induction n generalizing m with
  | zero =>
    rw [m.run_zero]
    exact .inl (m.limited limit).run_zero
  | succ n ih =>
    rw [m.run_succ]
    rcases m.script_limited le with refused | same
    · obtain ⟨line, script⟩ := script_of_refused refused
      refine .inr ⟨0, m, refused, rfl, .start, line, ?_⟩
      rw [m.run_succ, script]
      rfl
    · have step := step_limited (n := n) (fun p limit_eq => ih p (limit_eq ▸ le)) (kept_prints.scripts m)
      rw [← same] at step
      refine step.imp (fun same => ((m.limited limit).run_succ n).trans same) ?_
      rintro ⟨p, k, w, comes, limit_eq, fails, failed⟩
      refine ⟨_, w, fails.refused, fails.limit_eq.trans limit_eq, .head comes fails.within, ?_⟩
      rwa [m.run_succ]

end Moment

def Step.Overflows (step : Step α) : Prop := ∃ n line st, step.run n = .failed ⟨line, .stackOverflow⟩ st

def Moment.Overflows (m : Moment) : Prop := ∃ n line st, m.run n = .failed ⟨line, .stackOverflow⟩ st

namespace Step

theorem overflows_here {m : Moment} {next : m.task.Result → State → Step α} (overflows : m.Overflows) :
    (part m next).Overflows := by
  obtain ⟨n, line, st, failed⟩ := overflows
  refine ⟨n, line, st, ?_⟩
  rw [run, failed]

theorem overflows_behind {m : Moment} {next : m.task.Result → State → Step α} {n : Nat} {a : m.task.Result}
    {st : State} (done : m.run n = .done a st) (overflows : (next a st).Overflows) : (part m next).Overflows := by
  obtain ⟨k, line, last, failed⟩ := overflows
  have first : m.run (max n k) = .done a st := by rw [m.run_mono (Nat.le_max_left n k) (by simp [done]), done]
  have later : (next a st).run (max n k) = (next a st).run k :=
    run_mono (fun m => m.run_mono (Nat.le_max_right n k)) _ (by simp [failed])
  refine ⟨max n k, line, last, ?_⟩
  rw [run, first]
  exact later.trans failed

/-- If a task fails for lack of a place for a call, so does the work that comes to it. -/
theorem Comes.overflows {step : Step α} {w : Moment} (comes : step.Comes w) (overflows : w.Overflows) :
    step.Overflows := by
  induction comes with
  | here => exact overflows_here overflows
  | behind done _ ih => exact overflows_behind done (ih overflows)

end Step

namespace Moment

variable {m w : Moment} {limit k : Nat}

theorem overflows_of_script (overflows : m.script.Overflows) : m.Overflows := by
  obtain ⟨n, line, st, failed⟩ := overflows
  exact ⟨n + 1, line, st, (m.run_succ n).trans failed⟩

theorem overflows_of_failed {line : Nat} {st : State} (failed : m.script = .ended (.failed ⟨line, .stackOverflow⟩ st)) :
    m.Overflows := by
  refine overflows_of_script ⟨0, line, st, ?_⟩
  rw [failed]
  rfl

theorem overflows_of_refused (refused : m.Refused) : m.Overflows := by
  obtain ⟨line, failed⟩ := script_of_refused refused
  exact overflows_of_failed failed

/-- Work without overflow comes to the same tasks as with a higher limit. -/
theorem comes_limited {step : Step α} {st : State} {outer : Context} {calls : Nat} (le : outer.limit ≤ limit)
    (keeps : step.Keeps State.Prints (Inside outer calls) st) (fine : ¬ step.Overflows)
    (comes : (step.limited limit).Comes w) : ∃ v, w = v.limited limit ∧ step.Comes v := by
  generalize same : step.limited limit = other at comes
  induction comes generalizing step st with
  | here =>
    cases step with
    | ended outcome => cases same
    | part p next =>
      cases same
      exact ⟨p, rfl, .here⟩
  | @behind _ w _ n a between done _ ih =>
    cases step with
    | ended outcome => cases same
    | part p next =>
      cases same
      obtain ⟨_, inside, later⟩ := keeps
      have low : p.context.limit ≤ limit := Nat.le_trans (Nat.le_of_eq inside.limit) le
      rcases p.run_limited n low with same | ⟨k, v, fails⟩
      · have done : p.run n = .done a between := same.symm.trans done
        have prints := kept_prints.run_done done
        have fine : ¬ (next a between).Overflows := fun overflows => fine (Step.overflows_behind done overflows)
        obtain ⟨v, eq, comes⟩ := ih (later a between prints) fine rfl
        exact ⟨v, eq, .behind done comes⟩
      · obtain ⟨line, failed⟩ := fails.fails
        exact absurd (Step.overflows_here ⟨n, line, v.state, failed⟩) fine

/-- A run without overflow comes to the same tasks as with a higher limit. -/
theorem within_limited (le : m.context.limit ≤ limit) (fine : ¬ m.Overflows)
    (within : Within (m.limited limit) k w) : ∃ v, w = v.limited limit ∧ Within m k v ∧ ¬ v.Overflows := by
  induction within with
  | start => exact ⟨m, rfl, .start, fine⟩
  | part _ comes ih =>
    obtain ⟨v, rfl, within, fine⟩ := ih
    have low : v.context.limit ≤ limit := Nat.le_trans (Nat.le_of_eq within.inside.limit) le
    have fineScript : ¬ v.script.Overflows := fun overflows => fine (overflows_of_script overflows)
    rcases v.script_limited low with refused | same
    · exact absurd (overflows_of_refused refused) fine
    · rw [same] at comes
      obtain ⟨u, rfl, again⟩ := comes_limited low (kept_prints.scripts v) fineScript comes
      have further := Within.part within again
      exact ⟨u, rfl, further, fun overflows => fineScript (again.overflows overflows)⟩

/-- If a task in a run fails for lack of a place for a call, so does the run. -/
theorem within_overflows {root : Moment} (within : Within root k m) (overflows : m.Overflows) :
    root.Overflows := by
  induction within with
  | start => exact overflows
  | part _ comes ih => exact ih (overflows_of_script (comes.overflows overflows))

/-- Where the lower limit refuses a call and the higher one suffices, one more call is active than the lower limit
allows. -/
theorem FailsAt.enters {n : Nat} (fails : m.FailsAt limit n k w) (fine : ¬ (m.limited limit).Overflows) :
    m.context.limit ≤ m.context.depth + k ∧ ∃ body, Within (m.limited limit) (k + 1) body := by
  obtain ⟨⟨call, full⟩, limit_eq, within, _⟩ := fails
  have depth : w.context.depth = m.context.depth + k := within.inside.depth
  refine ⟨by omega, ?_⟩
  have again : (w.limited limit).IsCall := call
  rcases again.comes with ⟨line, failed⟩ | ⟨body, comes⟩
  · exact absurd (within_overflows within (overflows_of_failed failed)) fine
  · have further := within.part comes
    obtain ⟨line, id, arguments, closure, task, _⟩ := call
    have calls : (w.limited limit).task.calls = 1 := by
      show w.task.calls = 1
      rw [task]
      rfl
    rw [calls] at further
    exact ⟨body, further⟩

end Moment

end TinyScript
