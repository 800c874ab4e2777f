import TinyScript.Proofs.Evaluation.ForLoop
import TinyScript.Proofs.Hollow.Alike

namespace TinyScript

open Evaluation

variable {α β : Type} {n : Nat} {c c' : Context}

namespace Seats

variable {p : Seats} {l : ForLoop}

theorem runs_repeating {check check' : Run Value} {turn turn' : Run Completion}
    (checks : ∀ q, p.Before q → q.Runs Same check check') (turns : ∀ q, p.Before q → q.Runs Same turn turn') (k : Nat) :
    p.Runs Same (repeating check turn k) (repeating check' turn' k) := by
  induction k generalizing p with
  | zero => exact fun _ _ _ => .unfinished
  | succ k ih =>
    refine (checks p (.refl p)).behind fun q v before => ?_
    split
    · refine (turns q before).behind fun r completion further => ?_
      have later := before.trans further
      cases completion with
      | returned => exact .pure rfl
      | normal => exact ih (fun q before => checks q (later.trans before)) fun q before => turns q (later.trans before)
    · exact .withoutValue

theorem runs_check (contexts : p.Contexts c c') (n : Nat) : p.Runs Same (l.check n c) (l.check n c') := by
  unfold ForLoop.check
  cases l.condition with
  | some e => exact run n (.eval e) contexts nofun
  | none => exact .keeping (.pure rfl)

theorem runs_turn (contexts : p.Contexts c c') (n : Nat) : p.Runs Same (l.turn n c) (l.turn n c') := by
  unfold ForLoop.turn
  cases l.increment with
  | none => exact run_block n contexts l.bodyLocation l.body
  | some step =>
    refine (run_block n contexts.inside l.bodyLocation l.body).behind fun q completion before => ?_
    cases completion with
    | returned => exact .pure rfl
    | normal =>
      exact (run n (.eval step) (contexts.inside.inside.mono before) nofun).behind fun _ _ _ => .pure rfl

/-- A new scope that only the first run opens is hollow. -/
theorem runs_newHollow {x : ScopeId → Run α} {y : Run β} {G : Seats → α → β → Prop} {id id' : ScopeId}
    (known : p.Known id id') (later : ∀ q inner, p.Before q → q.Known inner id' → q.Runs G (x inner) y) :
    p.Runs G (.creating (·.newScope (some id)) >>= x) y := by
  intro st st' states
  have seated : (p.add ⟨id', .hollow⟩).Known st.store.scopes.size id' := ⟨.hollow, states.store.size ▸ p.at_last _⟩
  have opened : (p.add ⟨id', .hollow⟩).States { st with store := (st.store.newScope (some id)).2 } st' :=
    ⟨states.store.newHollow known, states.printed, states.latest⟩
  exact (later _ _ (p.before_add _) seated _ _ opened).mono (p.before_add _)

/-- Without the scope around body and increment a turn does the same. -/
theorem runs_writtenTurn (contexts : p.Contexts c c') (n : Nat) :
    p.Runs Same (l.writtenTurn n c) (l.turn n c') := by
  unfold ForLoop.writtenTurn
  cases l.increment with
  | none => exact runs_turn contexts n
  | some step =>
    exact runs_newHollow contexts.scope fun q inner before known => runs_turn ((contexts.mono before).inScope known) n

theorem runs_begin {turn turn' : Context → Run Completion}
    (turns : ∀ (q : Seats) (c c' : Context), q.Contexts c c' → q.Runs Same (turn c) (turn' c'))
    (contexts : p.Contexts c c') (free : l.initializer.isSome → p.Free c.scope c'.scope) (n : Nat) :
    p.Runs Same (l.begin turn n c) (l.begin turn' n c') := by
  have rounds {q : Seats} {c c' : Context} (contexts : q.Contexts c c') :
      q.Runs Same (repeating (l.check n c) (turn c) n) (repeating (l.check n c') (turn' c') n) :=
    runs_repeating (fun _ before => runs_check (contexts.mono before) n)
      (fun _ before => turns _ _ _ (contexts.mono before)) n
  unfold ForLoop.begin
  cases initializer : l.initializer with
  | none => exact rounds contexts.inside
  | some first =>
    have free := free (initializer ▸ rfl)
    refine (run n (.exec first) contexts.inside fun _ => free).behind fun q completion before => ?_
    cases completion with
    | returned => exact .pure rfl
    | normal => exact rounds (contexts.inside.inside.mono before)

theorem runs_enclosed {turn turn' : Context → Run Completion}
    (turns : ∀ (q : Seats) (c c' : Context), q.Contexts c c' → q.Runs Same (turn c) (turn' c'))
    (contexts : p.Contexts c c') (n : Nat) : p.Runs Same (l.enclosed turn n c) (l.enclosed turn' n c') := by
  unfold ForLoop.enclosed
  cases initializer : l.initializer with
  | none => exact runs_begin turns contexts (by simp [initializer]) n
  | some first =>
    exact (Runs.newScope contexts.scope).bind fun q scope scope' before free =>
      runs_begin turns ((contexts.mono before).inScope free.known) (fun _ => free) n

/-- Without the scope of a loop that has no initializer the rule does the same. -/
theorem runs_direct (contexts : p.Contexts c c') (n : Nat) :
    p.Runs Same (l.direct n c) (l.enclosed (l.turn n) n c') := by
  have turns (q : Seats) (c c' : Context) (contexts : q.Contexts c c') := runs_turn contexts n (l := l)
  unfold ForLoop.direct ForLoop.enclosed
  cases initializer : l.initializer with
  | none =>
    exact runs_newHollow contexts.scope fun q scope before known =>
      runs_begin turns ((contexts.mono before).inScope known) (by simp [initializer]) n
  | some first =>
    exact (Runs.newScope contexts.scope).bind fun q scope scope' before free =>
      runs_begin turns ((contexts.mono before).inScope free.known) (fun _ => free) n

end Seats

namespace ForLoop

variable {l : ForLoop} {st : State}

theorem written_direct (l : ForLoop) (placed : st.store.Placed) (has : st.store.Has (.scope c.scope)) (n : Nat) :
    Outcome.Agree (State.Indistinct st.store) (l.written n c st) (l.direct n c st) := by
  have agree {R : State → State → Prop} {p : Seats} (stores : p.Stores st.store st.store)
      (known : p.Known c.scope c.scope)
      (related : ∀ q r st st' bare, p.Before q → p.Before r → q.States st bare → r.States st' bare → R st st') :
      Outcome.Agree R (l.written n c st) (l.direct n c st) :=
    (Seats.runs_enclosed (fun _ _ _ contexts => Seats.runs_writtenTurn contexts n) (.refl known) n st st
      ⟨stores, rfl, rfl⟩).agree (Seats.runs_direct (.refl known) n st st ⟨stores, rfl, rfl⟩) related
  have alike : Outcome.Agree (State.Alike st.store) (l.written n c st) (l.direct n c st) :=
    agree (.of_free placed) (Seats.free_free has).known fun q r _ _ bare old old' states states' =>
      ⟨q, r, bare, old, old', states, states'⟩
  have restored : Outcome.Agree (fun after after' => ∀ id, st.store.Has (.scope id) → ∀ name,
      after.store.binder? id name = st.store.binder? id name ∧
        after'.store.binder? id name = st.store.binder? id name) (l.written n c st) (l.direct n c st) :=
    agree (.of_settled placed) ⟨_, Seats.at_start.2 ⟨has, rfl⟩⟩ fun q r _ _ bare old old' states states' id has name =>
      ⟨states.store.restored placed old has name, states'.store.restored placed old' has name⟩
  exact alike.and restored fun _ _ alike restored => alike.indistinct restored

/-- Behind the body each name leads where it led before it, from every scope that was there. -/
theorem block_restored (l : ForLoop) {after : State} (placed : st.store.Placed) (has : st.store.Has (.scope c.scope))
    (ended : (exec n c l.block st).state? = some after) {id : ScopeId} (there : st.store.Has (.scope id))
    (name : Text) :
    after.store.binder? id name = st.store.binder? id name := by
  have known : (Seats.settled st.store).Known c.scope c.scope := ⟨_, Seats.at_start.2 ⟨has, rfl⟩⟩
  have both : (Seats.settled st.store).Outcomes Seats.Same (exec n c l.block st) (exec n c l.block st) :=
    Seats.run_block n (.refl known) l.bodyLocation l.body st st ⟨.of_settled placed, rfl, rfl⟩
  generalize exec n c l.block st = o at both ended
  cases both with
  | done old _ states =>
    cases ended
    exact states.store.restored placed old there name
  | failed old states =>
    cases ended
    exact states.store.restored placed old there name
  | unfinished => cases ended

/-- A loop that is written with an initializer, a condition and an increment does what the rule for such loops says. It
ends, with enough steps, just when the rule does. The increment sees none of the variables that the body has declared,
because from the scope of the loop each name leads where it led before the body. -/
theorem statement_direct (l : ForLoop) (c : Context) (st : State) (placed : st.store.Placed)
    (has : st.store.Has (.scope c.scope)) :
    (∀ n, exec n c l.statement st ≠ .unfinished →
      Outcome.Agree (State.Indistinct st.store) (exec n c l.statement st) (l.direct (n + 4) c st)) ∧
    (∀ n, l.direct n c st ≠ .unfinished →
      Outcome.Agree (State.Indistinct st.store) (exec (n + 4 + n + 4) c l.statement st) (l.direct n c st)) ∧
    ∀ (n : Nat) (inside : Context) (entered left : State), entered.store.Placed →
      entered.store.Has (.scope inside.scope) → (exec n inside l.block entered).state? = some left →
      ∀ name, left.store.binder? inside.scope name = entered.store.binder? inside.scope name := by
  refine ⟨fun n ends => ?_, fun n ends => ?_, fun n inside entered left placed has ended name => ?_⟩
  · rw [← statement_below_written st ends]
    exact l.written_direct placed has (n + 4)
  · have agree := l.written_direct placed has n
    rw [written_below_statement st (agree.ends ends)]
    exact agree
  · exact l.block_restored placed has ended has name

/-- The loop `for (var i = 0; i < 2; i = i + 1) { var j = i; f = function () { return j; }; }`. -/
def counting : ForLoop where
  location := ⟨1, 1⟩
  initializer := some (.var ⟨1, 6⟩ "i" (some (.number ⟨1, 14⟩ 0)))
  condition := some (.binary ⟨1, 19⟩ .less (.identifier ⟨1, 17⟩ "i") (.number ⟨1, 21⟩ 2))
  increment := some (.assign ⟨1, 26⟩ "i" (.binary ⟨1, 30⟩ .add (.identifier ⟨1, 28⟩ "i") (.number ⟨1, 32⟩ 1)))
  bodyLocation := ⟨1, 35⟩
  body := [.var ⟨1, 37⟩ "j" (some (.identifier ⟨1, 45⟩ "i")),
    .expression ⟨1, 50⟩ (.assign ⟨1, 50⟩ "f" (.function ⟨⟨1, 52⟩, [], [], ⟨1, 64⟩,
      [.returns ⟨1, 66⟩ (some (.identifier ⟨1, 73⟩ "j"))]⟩))]

/-- In a store with one scope, which binds `f`, the written-out loop opens two scopes more than the rule. The function
of the last turn is there in the end, and the variable of the loop is not. -/
theorem statement_direct_counting : ∃ (c : Context) (st after after' : State),
    exec 20 c counting.statement st = .done (.normal none) after ∧
      counting.direct 24 c st = .done (.normal none) after' ∧ State.Indistinct st.store after after' ∧
      after.store.scopes.size = after'.store.scopes.size + 2 ∧ after.store.lookup 0 "f" = some (.closure 1) ∧
      after.store.lookup 0 "i" = none := by
  let c : Context := ⟨0, 0, 1, 9, 0⟩
  let st : State := ⟨(Store.empty.newScope none).2.define 0 "f" .null, #[], .null⟩
  have opened : (Store.empty.newScope none).2.Placed := Store.placed_empty.newScope nofun
  have bound : Store.Edit (fun _ => True) (Store.empty.newScope none).2 st.store := .define trivial nofun
  have here : st.store.Has (.scope c.scope) := Nat.zero_lt_one
  have runs : (match exec 20 c counting.statement st with
      | .done (.normal none) after => some (after.store.scopes.size, after.store.lookup 0 "f", after.store.lookup 0 "i")
      | _ => none) = some (6, some (.closure 1), none) := by decide +kernel
  have rule : (match counting.direct 24 c st with
      | .done (.normal none) after => some after.store.scopes.size
      | _ => none) = some 4 := by decide +kernel
  split at runs
  · next after ends =>
    split at rule
    · next after' ends' =>
      have agree := (statement_direct counting c st (bound.placed opened) here).1 20 (by rw [ends]; nofun)
      rw [ends, ends'] at agree
      cases agree with
      | done indistinct =>
        simp only [Option.some.injEq, Prod.mk.injEq] at runs rule
        exact ⟨c, st, after, after', ends, ends', indistinct, by rw [runs.1, rule], runs.2⟩
    · cases rule
  · cases runs

end ForLoop

end TinyScript
