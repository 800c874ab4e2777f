import TinyScript.Proofs.Evaluation.Repeating

namespace TinyScript

open Evaluation

variable {n k : Nat} {c : Context}

/-- A loop with an initializer, a condition and an increment, each of which may be absent, around a block. -/
structure ForLoop where
  location : Location
  initializer : Option Stmt
  condition : Option Expr
  increment : Option Expr
  bodyLocation : Location
  body : List Stmt

namespace ForLoop

variable (l : ForLoop)

def block : Stmt := .block l.bodyLocation l.body

/-- The loop, written with the other statements. -/
def statement : Stmt := .forLoop l.location l.initializer l.condition l.increment l.block

/-- The value of the condition. An absent one is true. -/
def check (n : Nat) (c : Context) : Run Value :=
  match l.condition with
  | some e => eval n c e
  | none => .keeping (pure (.boolean true))

/-- The body is executed, and unless it returns the increment is evaluated behind it. -/
def turn (n : Nat) (c : Context) : Run Completion :=
  match l.increment with
  | none => exec n c l.block
  | some step => do
    match ← exec n c.inside l.block with
    | .returned value => pure (.returned value)
    | .normal _ => do
      let _ ← eval n c.inside.inside step
      pure (.normal none)

/-- The initializer is executed, and unless it returns the turns are taken behind it. -/
def begin (turn : Context → Run Completion) (n : Nat) (c : Context) : Run Completion :=
  match l.initializer with
  | none => repeating (l.check n c.inside) (turn c.inside) n
  | some first => do
    match ← exec n c.inside first with
    | .returned value => pure (.returned value)
    | .normal _ => repeating (l.check n c.inside.inside) (turn c.inside.inside) n

/-- What a loop does. In a new scope the initializer is executed once. Then, as long as the condition holds in this
scope, the body is executed in a scope of its own and the increment is evaluated in the scope of the loop. How far in
the parts are is as in the written-out loop. -/
def direct (n : Nat) (c : Context) : Run Completion := do
  let scope ← .creating (·.newScope (some c.scope))
  l.begin (l.turn n) n { c with scope }

/-- A turn in the written-out loop. Body and increment are in a block, if there is an increment. -/
def writtenTurn (n : Nat) (c : Context) : Run Completion :=
  match l.increment with
  | none => l.turn n c
  | some _ => do
    let scope ← .creating (·.newScope (some c.scope))
    l.turn n { c with scope }

/-- The loop is in a block, if there is an initializer. -/
def enclosed (turn : Context → Run Completion) (n : Nat) (c : Context) : Run Completion :=
  match l.initializer with
  | none => l.begin turn n c
  | some _ => do
    let scope ← .creating (·.newScope (some c.scope))
    l.begin turn n { c with scope }

def written (n : Nat) (c : Context) : Run Completion := l.enclosed (l.writtenTurn n) n c

/-- The condition in the written-out loop. -/
def test : Expr := l.condition.getD (.boolean l.location true)

/-- The body of the written-out loop. -/
def round : Stmt :=
  match l.increment with
  | none => l.block
  | some step => .block l.bodyLocation [l.block, .expression step.location step]

variable {l}

theorem eval_below_check : (eval n c l.test).Below (l.check n c) := by
  unfold test check
  cases l.condition with
  | some e => exact .refl _
  | none =>
    cases n with
    | zero => exact .unfinished _
    | succ n => exact .refl _

theorem check_below_eval (le : n < k) : (l.check n c).Below (eval k c l.test) := by
  obtain ⟨k, rfl⟩ := Nat.exists_eq_add_of_lt le
  unfold test check
  cases l.condition with
  | some e => exact .eval (Nat.le_of_lt le) c e
  | none => exact .refl _

theorem exec_below_writtenTurn : (exec n c l.round).Below (l.writtenTurn (n + 4) c) := by
  refine (Run.Below.exec (Nat.le_add_right n 4) c l.round).trans ?_
  unfold round writtenTurn turn
  cases l.increment with
  | none => exact .refl _
  | some step =>
    dsimp only
    rw [exec_pair]
    refine (Run.Below.refl _).bind fun scope => (Run.Below.exec (by omega) _ _).bind fun completion => ?_
    cases completion with
    | returned => exact .refl _
    | normal =>
      dsimp only
      rw [exec, Run.bind_assoc]
      exact (Run.Below.eval (by omega) _ _).bind fun _ => .refl _

theorem writtenTurn_below_exec : (l.writtenTurn n c).Below (exec (n + 4) c l.round) := by
  unfold round writtenTurn turn
  cases l.increment with
  | none => exact .exec (Nat.le_add_right n 4) c l.block
  | some step =>
    dsimp only
    rw [exec_pair]
    refine (Run.Below.refl _).bind fun scope => (Run.Below.exec (by omega) _ _).bind fun completion => ?_
    cases completion with
    | returned => exact .refl _
    | normal =>
      dsimp only
      rw [exec, Run.bind_assoc]
      exact .refl _

theorem loop_below_repeating : (loop n c l.test l.round).Below
    (repeating (l.check (n + 4) c) (l.writtenTurn (n + 4) c) (n + 4)) := by
  refine (TinyScript.loop_below_repeating (Nat.le_refl n)).trans (repeating_below ?_ exec_below_writtenTurn ?_)
  · exact (Run.Below.eval (Nat.le_add_right n 4) c l.test).trans eval_below_check
  · exact Nat.le_add_right n 4

theorem repeating_below_loop :
    (repeating (l.check n c) (l.writtenTurn n c) n).Below (loop (n + 4 + n) c l.test l.round) :=
  (repeating_below (check_below_eval (by omega)) writtenTurn_below_exec (Nat.le_refl n)).trans
    (TinyScript.repeating_below_loop n)

theorem statement_of_none (none : l.initializer = none) : l.statement = .whileLoop l.location l.test l.round := by
  unfold statement Stmt.forLoop round
  rw [none]
  cases l.increment <;> rfl

theorem statement_of_some {first : Stmt} (some : l.initializer = some first) :
    l.statement = .block l.location [first, .whileLoop l.location l.test l.round] := by
  unfold statement Stmt.forLoop round
  rw [some]
  cases l.increment <;> rfl

theorem statement_below_written : (exec n c l.statement).Below (l.written (n + 4) c) := by
  unfold written enclosed begin
  cases initializer : l.initializer with
  | none =>
    rw [statement_of_none initializer]
    exact (Run.Below.exec (Nat.le_succ n) c (.whileLoop l.location l.test l.round)).trans loop_below_repeating
  | some first =>
    refine (Run.Below.exec (Nat.le_add_right n 4) c l.statement).trans ?_
    rw [statement_of_some initializer, exec_pair]
    refine (Run.Below.refl _).bind fun scope => (Run.Below.exec (by omega) _ _).bind fun completion => ?_
    cases completion with
    | returned => exact .refl _
    | normal =>
      dsimp only
      rw [exec, ← repeating_dropped]
      exact loop_below_repeating.bind fun _ => .refl _

theorem written_below_statement : (l.written n c).Below (exec (n + 4 + n + 4) c l.statement) := by
  unfold written enclosed begin
  cases initializer : l.initializer with
  | none =>
    rw [statement_of_none initializer]
    exact repeating_below_loop.trans (.exec (n := n + 4 + n + 1) (by omega) c (.whileLoop l.location l.test l.round))
  | some first =>
    rw [statement_of_some initializer, exec_pair]
    refine (Run.Below.refl _).bind fun scope => (Run.Below.exec (by omega) _ _).bind fun completion => ?_
    cases completion with
    | returned => exact .refl _
    | normal =>
      dsimp only
      rw [exec, ← repeating_dropped]
      exact repeating_below_loop.bind fun _ => .refl _

end ForLoop

end TinyScript
