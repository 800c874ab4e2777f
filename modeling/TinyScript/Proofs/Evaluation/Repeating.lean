import TinyScript.Proofs.Evaluation.Moments

namespace TinyScript

open Evaluation

variable {α β γ : Type} {n k : Nat} {c : Context}

namespace Run

theorem bind_assoc (x : Run α) (f : α → Run β) (g : β → Run γ) : x >>= f >>= g = x >>= fun a => f a >>= g := by
  funext st
  rw [bind_apply, bind_apply, bind_apply]
  cases x st <;> rfl

/-- Where the first run ends the second one does the same. -/
def Below (x y : Run α) : Prop := ∀ st, x st ≠ .unfinished → y st = x st

namespace Below

variable {x y z : Run α}

theorem refl (x : Run α) : x.Below x := fun _ _ => rfl

theorem unfinished (y : Run α) : Below .unfinished y := fun _ ends => absurd rfl ends

theorem trans (first : x.Below y) (second : y.Below z) : x.Below z := by
  intro st ends
  have same := first st ends
  rw [second st (by rwa [same]), same]

theorem bind {f g : α → Run β} (first : x.Below y) (later : ∀ a, (f a).Below (g a)) : (x >>= f).Below (y >>= g) := by
  intro st ends
  rw [bind_apply] at ends ⊢
  rw [bind_apply]
  cases run : x st with
  | done a between =>
    rw [run] at ends
    rw [first st (by simp [run]), run]
    exact later a between ends
  | failed error between => rw [first st (by simp [run]), run]
  | unfinished =>
    rw [run] at ends
    exact absurd rfl ends

theorem ite {p : Prop} [Decidable p] {x' y' : Run α} (yes : x.Below x') (no : y.Below y') :
    (if p then x else y).Below (if p then x' else y') := by
  split
  · exact yes
  · exact no

theorem task (le : n ≤ k) (c : Context) (t : Task) : (t.run n c).Below (t.run k c) :=
  fun st ends => Moment.run_mono le ⟨c, t, st⟩ ends

theorem exec (le : n ≤ k) (c : Context) (s : Stmt) : (exec n c s).Below (exec k c s) := task le c (.exec s)

theorem eval (le : n ≤ k) (c : Context) (e : Expr) : (eval n c e).Below (eval k c e) := task le c (.eval e)

end Below

end Run

/-- Takes turns as long as a check holds, at most so many. -/
def repeating (check : Run Value) (turn : Run Completion) : Nat → Run Completion
  | 0 => .unfinished
  | k + 1 => do
    if (← check).truthy then
      match ← turn with
      | .returned value => pure (.returned value)
      | .normal _ => repeating check turn k
    else withoutValue

/-- Only a return has a value. -/
def Completion.dropped : Completion → Completion
  | returned value => .returned value
  | normal _ => .normal none

theorem repeating_below {check check' : Run Value} {turn turn' : Run Completion} (checks : check.Below check')
    (turns : turn.Below turn') (le : n ≤ k) : (repeating check turn n).Below (repeating check' turn' k) := by
  induction n generalizing k with
  | zero => exact .unfinished _
  | succ n ih =>
    obtain ⟨k, rfl⟩ := Nat.exists_eq_add_of_le' (Nat.le_trans (Nat.succ_le_succ (Nat.zero_le n)) le)
    refine checks.bind fun v => .ite (turns.bind fun completion => ?_) (.refl _)
    cases completion with
    | normal => exact ih (Nat.le_of_succ_le_succ le)
    | returned => exact .refl _

theorem loop_below_repeating {condition : Expr} {body : Stmt} (enough : n ≤ k) :
    (loop n c condition body).Below (repeating (eval k c condition) (exec k c body) n) := by
  induction n with
  | zero => exact .unfinished _
  | succ n ih =>
    have le := Nat.le_of_succ_le enough
    rw [loop]
    refine (Run.Below.eval le c condition).bind fun v => ?_
    refine .ite ((Run.Below.exec le c body).bind fun completion => ?_) (.refl _)
    cases completion with
    | normal => exact ih le
    | returned => exact .refl _

theorem repeating_below_loop {condition : Expr} {body : Stmt} (k : Nat) :
    (repeating (eval n c condition) (exec n c body) k).Below (loop (n + k) c condition body) := by
  induction k with
  | zero => exact .unfinished _
  | succ k ih =>
    have le := Nat.le_add_right n k
    show Run.Below _ (loop (n + k + 1) c condition body)
    rw [loop]
    refine (Run.Below.eval le c condition).bind fun v => ?_
    refine .ite ((Run.Below.exec le c body).bind fun completion => ?_) (.refl _)
    cases completion with
    | normal => exact ih
    | returned => exact .refl _

theorem repeating_dropped (check : Run Value) (turn : Run Completion) (k : Nat) :
    (repeating check turn k >>= fun completion => pure completion.dropped) = repeating check turn k := by
  induction k with
  | zero => rfl
  | succ k ih =>
    rw [repeating, Run.bind_assoc]
    refine bind_congr fun v => ?_
    split
    · rw [Run.bind_assoc]
      refine bind_congr fun completion => ?_
      cases completion with
      | normal => exact ih
      | returned => rfl
    · rfl

theorem exec_pair (n : Nat) (c : Context) (location : Location) (a b : Stmt) :
    exec (n + 4) c (.block location [a, b]) = (do
      let scope ← .creating (·.newScope (some c.scope))
      match ← exec (n + 2) { c with scope }.inside a with
      | .returned value => pure (.returned value)
      | .normal _ => return (← exec (n + 1) { c with scope }.inside b).dropped) := by
  rw [exec]
  refine bind_congr fun scope => ?_
  rw [execAll, Run.bind_assoc]
  refine bind_congr fun completion => ?_
  cases completion with
  | returned value => rfl
  | normal value =>
    dsimp only
    rw [execAll, Run.bind_assoc]
    refine bind_congr fun completion => ?_
    cases completion <;> rfl

end TinyScript
