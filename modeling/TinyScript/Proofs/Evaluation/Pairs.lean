import TinyScript.Proofs.Evaluation.Moments

namespace TinyScript

open Evaluation

variable {n k : Nat} {c : Context} {st mid st' : State} {key : Text} {e : Expr} {v : Value} {error : RuntimeError}
  {pairs before after : List (Text × Expr)} {entries found result : List (Text × Value)}
  {o : Outcome (List (Text × Value))}

/-- The values of some pairs are worked out in turn: each in the state in which the one before it has ended. -/
inductive InTurn (c : Context) : State → List (Text × Expr) → List (Text × Value) → State → Prop
  | done {st : State} : InTurn c st [] [] st
  | next {st mid st' : State} {key : Text} {e : Expr} {v : Value} {pairs : List (Text × Expr)}
      {entries : List (Text × Value)} : (∃ n, eval n c e st = .done v mid) → InTurn c mid pairs entries st' →
      InTurn c st ((key, e) :: pairs) ((key, v) :: entries) st'

/-- The value of a pair fails when those before it have been worked out. -/
def FailsInTurn (c : Context) (st : State) (pairs : List (Text × Expr)) (error : RuntimeError) (st' : State) : Prop :=
  ∃ before key e after entries mid, pairs = before ++ (key, e) :: after ∧ InTurn c st before entries mid ∧
    ∃ n, eval n c e mid = .failed error st'

/-- No key is lost. -/
theorem InTurn.keys (inTurn : InTurn c st pairs entries st') : entries.map Prod.fst = pairs.map Prod.fst := by
  induction inTurn with
  | done => rfl
  | next _ _ ih => rw [List.map_cons, List.map_cons, ih]

theorem evalPairs_mono (le : n ≤ k) (ends : evalPairs n c found pairs st ≠ .unfinished) :
    evalPairs k c found pairs st = evalPairs n c found pairs st :=
  Moment.run_mono le ⟨c, .evalPairs found pairs, st⟩ ends

theorem evalPairs_cons : evalPairs (n + 1) c found ((key, e) :: pairs) st =
    match eval n c e st with
    | .done v mid => evalPairs n c ((key, v) :: found) pairs mid
    | .failed error mid => .failed error mid
    | .unfinished => .unfinished := by
  rw [evalPairs, Run.bind_apply]
  cases eval n c e st <;> rfl

/-- Behind a value that has been worked out the others are. -/
theorem evalPairs_behind (ends : o ≠ .unfinished) (first : eval k c e st = .done v mid) :
    (∃ n, evalPairs n c found ((key, e) :: pairs) st = o) ↔ ∃ n, evalPairs n c ((key, v) :: found) pairs mid = o := by
  refine Moment.behind (m := ⟨c, .eval e, st⟩) ends first rfl (fun n stuck => ?_) (fun n done => ?_) evalPairs_mono
  · rw [evalPairs_cons, show eval n c e st = .unfinished from stuck]
  · rw [evalPairs_cons, show eval n c e st = .done v mid from done]

/-- Behind values that have been worked out the others are. -/
theorem evalPairs_append (ends : o ≠ .unfinished) (first : InTurn c st before entries mid) :
    (∃ n, evalPairs n c found (before ++ pairs) st = o) ↔
      ∃ n, evalPairs n c (entries.reverse ++ found) pairs mid = o := by
  induction first generalizing found with
  | done => rfl
  | next first _ ih =>
    obtain ⟨k, first⟩ := first
    rw [List.cons_append, evalPairs_behind ends first, ih, List.reverse_cons, List.append_assoc, List.singleton_append]

/-- The values of pairs are worked out in turn, or one of them fails. -/
theorem evalPairs_inTurn (ends : evalPairs n c found pairs st = o) (finished : o ≠ .unfinished) :
    (∃ entries mid, InTurn c st pairs entries mid ∧ o = .done (found.reverse ++ entries) mid) ∨
      ∃ error mid, FailsInTurn c st pairs error mid ∧ o = .failed error mid := by
  induction pairs generalizing n found st with
  | nil =>
    cases n with
    | zero => exact absurd ends.symm finished
    | succ n => exact .inl ⟨[], st, .done, by rw [← ends, List.append_nil]; rfl⟩
  | cons pair pairs ih =>
    obtain ⟨key, e⟩ := pair
    cases n with
    | zero => exact absurd ends.symm finished
    | succ n =>
      rw [evalPairs_cons] at ends
      cases run : eval n c e st with
      | done v mid =>
        rw [run] at ends
        rcases ih ends with ⟨entries, last, inTurn, same⟩ | ⟨error, last, fails, same⟩
        · refine .inl ⟨(key, v) :: entries, last, .next ⟨n, run⟩ inTurn, ?_⟩
          rw [same, List.reverse_cons, List.append_assoc, List.singleton_append]
        · obtain ⟨before, other, e', after, entries, between, rfl, inTurn, failed⟩ := fails
          exact .inr ⟨error, last, ⟨(key, e) :: before, other, e', after, (key, v) :: entries, between, rfl,
            .next ⟨n, run⟩ inTurn, failed⟩, same⟩
      | failed error mid =>
        rw [run] at ends
        exact .inr ⟨error, mid, ⟨[], key, e, pairs, [], st, rfl, .done, n, run⟩, ends.symm⟩
      | unfinished =>
        rw [run] at ends
        exact absurd ends.symm finished

/-- Pairs yield entries exactly when their values are worked out in turn. -/
theorem evalPairs_done_iff : (∃ n, evalPairs n c [] pairs st = .done entries st') ↔ InTurn c st pairs entries st' := by
  constructor
  · rintro ⟨n, done⟩
    rcases evalPairs_inTurn done nofun with ⟨others, mid, inTurn, same⟩ | ⟨error, mid, -, same⟩
    · cases same
      exact inTurn
    · cases same
  · intro inTurn
    have ends : evalPairs 1 c (entries.reverse ++ []) [] st' = .done entries st' := by
      rw [evalPairs, List.append_nil, List.reverse_reverse]
      rfl
    rw [← List.append_nil pairs]
    exact (evalPairs_append (by rintro ⟨⟩) inTurn).2 ⟨1, ends⟩

/-- Pairs fail exactly when one of their values does. -/
theorem evalPairs_failed_iff :
    (∃ n, evalPairs n c [] pairs st = .failed error st') ↔ FailsInTurn c st pairs error st' := by
  constructor
  · rintro ⟨n, failed⟩
    rcases evalPairs_inTurn failed nofun with ⟨entries, mid, -, same⟩ | ⟨error, mid, fails, same⟩
    · cases same
    · cases same
      exact fails
  · rintro ⟨before, key, e, after, entries, mid, rfl, inTurn, n, failed⟩
    have stops : evalPairs (n + 1) c (entries.reverse ++ []) ((key, e) :: after) mid = .failed error st' := by
      rw [evalPairs_cons, failed]
    exact (evalPairs_append (by rintro ⟨⟩) inTurn).2 ⟨n + 1, stops⟩

end TinyScript
