import TinyScript.Proofs.Evaluation.Moments

namespace TinyScript

open Evaluation

variable {n k : Nat} {c : Context} {last v : Option Value} {s : Stmt} {before after : List Stmt} {st st' : State}
  {o : Outcome Completion}

theorem execAll_mono (le : n ≤ k) (ends : execAll n c last after st ≠ .unfinished) :
    execAll k c last after st = execAll n c last after st :=
  Moment.run_mono le ⟨c, .execAll last after, st⟩ ends

theorem execAll_cons : execAll (n + 1) c last (s :: after) st =
    match exec n c s st with
    | .done (.returned v) st' => .done (.returned v) st'
    | .done (.normal v) st' => execAll n c v after st'
    | .failed error st' => .failed error st'
    | .unfinished => .unfinished := by
  rw [execAll, Run.bind_apply]
  cases exec n c s st with
  | done completion st' => cases completion <;> rfl
  | failed error st' => rfl
  | unfinished => rfl

/-- Behind a statement that does not return the others go on. -/
theorem execAll_behind (ends : o ≠ .unfinished) (first : exec k c s st = .done (.normal v) st') :
    (∃ n, execAll n c last (s :: after) st = o) ↔ ∃ n, execAll n c v after st' = o := by
  refine Moment.behind (m := ⟨c, .exec s, st⟩) ends first rfl (fun n stuck => ?_) (fun n done => ?_) execAll_mono
  · rw [execAll_cons, show exec n c s st = .unfinished from stuck]
  · rw [execAll_cons, show exec n c s st = .done (.normal v) st' from done]

/-- Behind statements that do not return the others go on. -/
theorem execAll_append (ends : o ≠ .unfinished) (first : execAll k c last before st = .done (.normal v) st') :
    (∃ n, execAll n c last (before ++ after) st = o) ↔ ∃ n, execAll n c v after st' = o := by
  induction before generalizing k last st with
  | nil =>
    cases k with
    | zero => cases first
    | succ k =>
      cases first
      rfl
  | cons s before ih =>
    cases k with
    | zero => cases first
    | succ k =>
      rw [execAll_cons] at first
      cases run : exec k c s st with
      | done completion between =>
        rw [run] at first
        cases completion with
        | returned => cases first
        | normal u => exact (execAll_behind ends run).trans (ih first)
      | failed error between =>
        rw [run] at first
        cases first
      | unfinished =>
        rw [run] at first
        cases first

/-- Behind statements that return or fail nothing is done any more. -/
theorem execAll_cut (ends : execAll n c last before st ≠ .unfinished)
    (early : ∀ v st', execAll n c last before st ≠ .done (.normal v) st') :
    execAll n c last (before ++ after) st = execAll n c last before st := by
  induction before generalizing n last st with
  | nil =>
    cases n with
    | zero => exact absurd rfl ends
    | succ n => exact absurd rfl (early last st)
  | cons s before ih =>
    cases n with
    | zero => exact absurd rfl ends
    | succ n =>
      rw [List.cons_append, execAll_cons, execAll_cons]
      rw [execAll_cons] at ends
      rw [execAll_cons] at early
      cases run : exec n c s st with
      | done completion between =>
        rw [run] at ends early
        cases completion with
        | returned v => rfl
        | normal v => exact ih ends early
      | failed error between => rfl
      | unfinished => rfl

/-- What was worked out before the first statement does not matter. -/
theorem execAll_last (nonempty : after ≠ []) (u : Option Value) :
    execAll n c last after st = execAll n c u after st := by
  cases n with
  | zero => rfl
  | succ n =>
    cases after with
    | nil => exact absurd rfl nonempty
    | cons s after => rw [execAll_cons, execAll_cons]

end TinyScript
