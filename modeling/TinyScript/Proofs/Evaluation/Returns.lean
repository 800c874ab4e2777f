import TinyScript.Proofs.Evaluation.Moments

namespace TinyScript

open Evaluation

variable {α β : Type} {n : Nat} {c : Context} {st st' : State} {v : Value}

/-- While the task is done a return statement is executed in the same call, and that is how it ends. -/
def Moment.Returns (m : Moment) (v : Value) (st : State) : Prop :=
  ∃ context location value before n, Within m 0 ⟨context, .exec (.returns location value), before⟩ ∧
    exec n context (.returns location value) before = .done (.returned v) st

/-- A part in the same call returns. -/
theorem Moment.Returns.of_part {root part : Moment} (sameCall : root.task.calls = 0) (comes : root.script.Comes part)
    (returns : part.Returns v st) : root.Returns v st := by
  obtain ⟨context, location, value, before, n, within, run⟩ := returns
  have within := within.head comes
  rw [sameCall] at within
  exact ⟨context, location, value, before, n, within, run⟩

theorem Run.of_bind_done {x : Run α} {f : α → Run β} {b : β} (done : (x >>= f) st = .done b st') :
    ∃ a between, x st = .done a between ∧ f a between = .done b st' := by
  rw [bind_apply] at done
  cases first : x st with
  | done a between =>
    rw [first] at done
    exact ⟨a, between, rfl, done⟩
  | failed error between =>
    rw [first] at done
    cases done
  | unfinished =>
    rw [first] at done
    cases done

/-- Behind a task the work comes to what the script goes on with. -/
theorem Script.comes_behind {t : Task} {a : t.Result} {next : t.Result → Script α} {w : Moment}
    (run : t.run n c st = .done a st') (comes : (next a st').Comes w) : ((ask c t >>= next) st).Comes w :=
  .behind (m := ⟨c, t, st⟩) run comes

/-- With these steps whatever returns has executed a return statement. -/
structure Returning (n : Nat) : Prop where
  exec : ∀ {c s st v st'}, exec n c s st = .done (.returned v) st' → Moment.Returns ⟨c, .exec s, st⟩ v st'
  execAll : ∀ {c last stmts st v st'}, execAll n c last stmts st = .done (.returned v) st' →
    Moment.Returns ⟨c, .execAll last stmts, st⟩ v st'
  loop : ∀ {c condition body st v st'}, loop n c condition body st = .done (.returned v) st' →
    Moment.Returns ⟨c, .loop condition body, st⟩ v st'

namespace Returning

theorem zero : Returning 0 where
  exec := nofun
  execAll := nofun
  loop := nofun

theorem succ_exec (returning : Returning n) {s : Stmt}
    (run : Evaluation.exec (n + 1) c s st = .done (.returned v) st') :
    Moment.Returns ⟨c, .exec s, st⟩ v st' := by
  cases s with
  | var location name value =>
    cases value with
    | none => cases run
    | some e =>
      obtain ⟨value, between, evaluated, run⟩ := Run.of_bind_done run
      cases run
  | function literal => cases run
  | expression location e =>
    obtain ⟨value, between, evaluated, run⟩ := Run.of_bind_done run
    cases run
  | returns location value => exact ⟨c, location, value, st, n + 1, .start, run⟩
  | block location body =>
    obtain ⟨inner, entered, made, run⟩ := Run.of_bind_done run
    cases made
    obtain ⟨completion, ended, executed, run⟩ := Run.of_bind_done run
    cases completion with
    | normal value => cases run
    | returned u =>
      cases run
      exact (returning.execAll executed).of_part rfl .here
  | ifElse location condition consequence alternative =>
    obtain ⟨value, between, evaluated, run⟩ := Run.of_bind_done run
    dsimp only at run
    cases choice : if value.truthy then some consequence else alternative with
    | none =>
      rw [choice] at run
      cases run
    | some chosen =>
      rw [choice] at run
      obtain ⟨completion, ended, executed, run⟩ := Run.of_bind_done run
      cases completion with
      | normal value => cases run
      | returned u =>
        cases run
        refine (returning.exec executed).of_part rfl (Script.comes_behind evaluated ?_)
        rw [choice]
        exact .here
  | whileLoop location condition body => exact (returning.loop run).of_part rfl .here

theorem succ_execAll (returning : Returning n) {last : Option Value} {stmts : List Stmt}
    (run : Evaluation.execAll (n + 1) c last stmts st = .done (.returned v) st') :
    Moment.Returns ⟨c, .execAll last stmts, st⟩ v st' := by
  cases stmts with
  | nil => cases run
  | cons s more =>
    obtain ⟨completion, between, executed, run⟩ := Run.of_bind_done run
    cases completion with
    | normal value => exact (returning.execAll run).of_part rfl (.behind executed .here)
    | returned u =>
      cases run
      exact (returning.exec executed).of_part rfl .here

theorem succ_loop (returning : Returning n) {condition : Expr} {body : Stmt}
    (run : Evaluation.loop (n + 1) c condition body st = .done (.returned v) st') :
    Moment.Returns ⟨c, .loop condition body, st⟩ v st' := by
  obtain ⟨value, between, evaluated, run⟩ := Run.of_bind_done run
  split at run
  · next truthy =>
    obtain ⟨completion, ended, executed, run⟩ := Run.of_bind_done run
    cases completion with
    | normal value =>
      refine (returning.loop run).of_part rfl (Script.comes_behind evaluated ?_)
      rw [if_pos truthy]
      exact Script.comes_behind executed .here
    | returned u =>
      cases run
      refine (returning.exec executed).of_part rfl (Script.comes_behind evaluated ?_)
      rw [if_pos truthy]
      exact .here
  · cases run

theorem all (n : Nat) : Returning n := by
  induction n with
  | zero => exact .zero
  | succ n ih => exact ⟨succ_exec ih, succ_execAll ih, succ_loop ih⟩

end Returning

/-- A statement that returns has executed a return statement, and leaves what that one left. -/
theorem exec_returns {s : Stmt} (run : exec n c s st = .done (.returned v) st') :
    Moment.Returns ⟨c, .exec s, st⟩ v st' := (Returning.all n).exec run

end TinyScript
