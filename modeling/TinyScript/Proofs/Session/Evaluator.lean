import TinyScript.Proofs.Evaluation.Restored
import TinyScript.Proofs.Guise.Ongoing

namespace TinyScript

open Evaluation

/-- An evaluator over globals. The registers are as the last program has left them. -/
structure Evaluator where
  globals : ScopeId
  callLimit : Nat
  registers : Registers

namespace Evaluator

/-- An evaluator that has run nothing, so that nothing is noted for a reset. -/
def new (globals : ScopeId) (callLimit : Nat) (s : Store) : Evaluator :=
  ⟨globals, callLimit, ⟨globals, 0, false, ⟨{ s with created := #[], captured := #[] }, #[], .null⟩⟩⟩

def host (room : Nat) (time : Float) (ev : Evaluator) : Host := ⟨ev.callLimit, room, time⟩

/-- Where the evaluator is by its registers. -/
def context (room : Nat) (time : Float) (ev : Evaluator) : Context :=
  (ev.host room time).context ev.registers.scope ev.registers.depth

/-- Runs a program, from the globals on and outside of all calls. -/
def evaluate (steps : Nat) (time : Float) (ev : Evaluator) (p : Program) : Exit (Option Value) :=
  Visit.program steps (ev.host Session.hostRoom time) none p.statements
    ⟨ev.globals, 0, false, ⟨ev.registers.state.store, #[], .null⟩⟩

/-- What a program does that is run like that, without registers. -/
def outcome (steps : Nat) (time : Float) (ev : Evaluator) (p : Program) : Outcome (Option Value) :=
  Evaluation.program steps ⟨ev.globals, 0, ev.callLimit, Session.hostRoom, time⟩ p
    ⟨ev.registers.state.store, #[], .null⟩

/-- The session that the evaluator works for. -/
def session (time : Float) (filenames : List Text) (ev : Evaluator) : Session :=
  ⟨ev.registers.state.store, ev.globals, ev.callLimit, time, filenames, ev.registers.state.latest⟩

/-- How a program is reported that the evaluator has run. -/
def report? (time : Float) (filenames : List Text) (ev : Evaluator) : Exit (Option Value) → Option Report
  | .done value after =>
    some ⟨.finished value, after.state.printed.toList.flatten, session time filenames { ev with registers := after }⟩
  | .failed error after =>
    some ⟨.failed error, after.state.printed.toList.flatten, session time filenames { ev with registers := after }⟩
  | .unfinished => none

end Evaluator

/-- More has been noted before. -/
def State.noted (created : Array ArrayId) (captured : Array ScopeId) (st : State) : State :=
  { st with store := st.store.noted created captured }

def Registers.noted (created : Array ArrayId) (captured : Array ScopeId) (regs : Registers) : Registers :=
  { regs with state := regs.state.noted created captured }

def Outcome.noted {α : Type} (created : Array ArrayId) (captured : Array ScopeId) : Outcome α → Outcome α
  | done a st => .done a (st.noted created captured)
  | failed error st => .failed error (st.noted created captured)
  | unfinished => .unfinished

variable {n : Nat} {host : Host} {scope : ScopeId} {depth : Nat} {c : Context} {p : Program} {st : State}
  {ev : Evaluator} {time : Float} {created : Array ArrayId} {captured : Array ScopeId}

theorem Visit.execAll_follows (n : Nat) (last : Option Value) (stmts : List Stmt) :
    Follows scope depth (fun completion _ value returning => value = Session.valueOf completion ∧ returning = false)
      (execAll n (host.context scope depth) last stmts) (Visit.program n host last stmts) := by
  induction n generalizing last stmts with
  | zero => exact .unfinished
  | succ n ih =>
    cases stmts with
    | nil => exact fun _ => .done ⟨rfl, rfl⟩
    | cons s more =>
      refine ((Same.all n).stmt host scope depth s).bind fun completion _ st returning ended => ?_
      cases completion with
      | normal value =>
        obtain ⟨rfl, rfl⟩ := ended
        exact ih (s.value? st) more st
      | returned v =>
        obtain ⟨rfl, rfl⟩ := ended
        exact .done ⟨rfl, rfl⟩

theorem Visit.program_follows :
    Follows scope depth Yielded (Evaluation.program n (host.context scope depth) p)
      (Visit.program n host none p.statements) :=
  (execAll_follows n none p.statements).recast fun completion value st returning same => by
    cases completion <;> exact ⟨_, rfl, same⟩

theorem Guise.ongoing_moments_noted (created : Array ArrayId) (captured : Array ScopeId) (c : Context)
    (stmts : List Stmt) (st : State) :
    (ongoing created captured #[] True).Moments ⟨c, .execAll none stmts, st⟩
      ⟨c, .execAll none stmts, st.noted created captured⟩ where
  context := ⟨by rw [ongoing_scope]; rfl, rfl, rfl, rfl, rfl⟩
  task := .execAll (Bodies.refl ongoing_plain stmts)
  state := ⟨ongoing_stores_iff.2 rfl, (Array.empty_append).symm, fun _ => by rw [ongoing_value]; rfl⟩

theorem Guise.States.eq_noted {st' : State} (states : (ongoing created captured #[] True).States st st') :
    st' = st.noted created captured := by
  obtain ⟨stores, printed, latest⟩ := states
  have stores := ongoing_stores_iff.1 stores
  have printed : st'.printed = st.printed := printed.trans Array.empty_append
  have latest := latest trivial
  rw [ongoing_value] at latest
  obtain ⟨_, _, _⟩ := st'
  cases stores
  cases printed
  cases latest
  rfl

/-- What is noted is only noted, so a run is the same whatever was noted before. -/
theorem execAll_noted (stmts : List Stmt) : execAll n c none stmts (st.noted created captured) =
    (execAll n c none stmts st).noted created captured := by
  have like := (Guise.ongoing_moments_noted created captured c stmts st).run (fun _ _ _ _ => rfl) n
  show Moment.run ⟨c, .execAll none stmts, st.noted created captured⟩ n =
    (Moment.run ⟨c, .execAll none stmts, st⟩ n).noted created captured
  generalize Moment.run ⟨c, .execAll none stmts, st⟩ n = o at like
  generalize Moment.run ⟨c, .execAll none stmts, st.noted created captured⟩ n = o' at like
  cases like with
  | done same states =>
    obtain rfl := same
    rw [Guise.ongoing_completion, states.eq_noted]
    rfl
  | failed errors states =>
    obtain rfl := Guise.ongoing_errors errors
    rw [states.eq_noted]
    rfl
  | unfinished => rfl

theorem program_noted : Evaluation.program n c p (st.noted created captured) =
    (Evaluation.program n c p st).noted created captured := by
  unfold Evaluation.program
  rw [Run.bind_apply, Run.bind_apply, execAll_noted]
  cases execAll n c none p.statements st with
  | done completion st => cases completion <;> rfl
  | failed error st => rfl
  | unfinished => rfl

theorem Exit.Follows.eq_ofOutcome {α : Type} {o : Outcome α} {exit : Exit α}
    (follows : Exit.Follows scope depth Visit.Yielded o exit) : exit = .ofOutcome ⟨scope, depth, false, st⟩ o := by
  cases follows with
  | done same =>
    obtain ⟨rfl, rfl⟩ := same
    rfl
  | failed => rfl
  | unfinished => rfl

namespace Evaluator

/-- What is done is what is done without registers, and it ends where it began. -/
theorem evaluate_eq (n : Nat) (time : Float) (ev : Evaluator) (p : Program) : ev.evaluate n time p =
    .ofOutcome ⟨ev.globals, 0, false, ⟨ev.registers.state.store, #[], .null⟩⟩ (ev.outcome n time p) :=
  (Visit.program_follows ⟨ev.registers.state.store, #[], .null⟩).eq_ofOutcome

theorem interpret_session (n : Nat) (filenames : List Text) (p : Program) :
    (ev.session time filenames).interpret n p = ev.report? time filenames (ev.evaluate n time p) := by
  rw [evaluate_eq]
  unfold Session.interpret session outcome
  dsimp only
  cases Evaluation.program n ⟨ev.globals, 0, ev.callLimit, Session.hostRoom, time⟩ p
    ⟨ev.registers.state.store, #[], .null⟩ <;> rfl

theorem evaluate_rests {after : Registers} (ends : (ev.evaluate n time p).registers? = some after) :
    after.scope = ev.globals ∧ after.depth = 0 ∧ after.returning = false := by
  rw [evaluate_eq] at ends
  generalize ev.outcome n time p = o at ends
  cases o with
  | done | failed =>
    cases ends
    exact ⟨rfl, rfl, rfl⟩
  | unfinished => cases ends

theorem outcome_new (n : Nat) (time : Float) (ev : Evaluator) (p : Program) : ev.outcome n time p =
    ((new ev.globals ev.callLimit ev.registers.state.store).outcome n time p).noted
      ev.registers.state.store.created ev.registers.state.store.captured := by
  have begins : (⟨ev.registers.state.store, #[], .null⟩ : State) =
      State.noted ev.registers.state.store.created ev.registers.state.store.captured
        ⟨{ ev.registers.state.store with created := #[], captured := #[] }, #[], .null⟩ := by
    simp [State.noted, Store.noted]
  unfold outcome
  rw [begins, program_noted]
  rfl

/-- A new evaluator does the same. -/
theorem evaluate_new (n : Nat) (time : Float) (ev : Evaluator) (p : Program) : ev.evaluate n time p =
    ((new ev.globals ev.callLimit ev.registers.state.store).evaluate n time p).leaving
      (·.noted ev.registers.state.store.created ev.registers.state.store.captured) := by
  rw [evaluate_eq, evaluate_eq, outcome_new]
  cases (new ev.globals ev.callLimit ev.registers.state.store).outcome n time p <;> rfl

/-- Evaluation always restores its context, also when it fails. Wherever no return waits, expressions and statements do
what they do without registers, and leave the scope and the depth of calls as they were. Behind an expression no return
waits, and behind a statement only the return of a return statement that was executed in it in the same call. So with
whatever is left in the registers, a program does what it does in the session, the evaluator is back where it began, and
a new evaluator over the same globals does the same, but for what was noted for a reset before. -/
theorem evaluate_restores (ev : Evaluator) (room : Nat) (time : Float) (n : Nat) :
    (ev.registers.returning = false →
      (∀ e : Expr,
        (Visit.valueOf (Visit.expr n (ev.host room time) e) ev.registers).outcome =
          eval n (ev.context room time) e ev.registers.state ∧
        (Visit.expr n (ev.host room time) e ev.registers).Restores ev.registers ∧
        ∀ after, Visit.expr n (ev.host room time) e ev.registers = .done () after → after.returning = false) ∧
      ∀ s : Stmt,
        (Visit.completionOf s (Visit.stmt n (ev.host room time) s) ev.registers).outcome =
          exec n (ev.context room time) s ev.registers.state ∧
        (Visit.stmt n (ev.host room time) s ev.registers).Restores ev.registers ∧
        ∀ after, Visit.stmt n (ev.host room time) s ev.registers = .done () after → after.returning = true →
          Moment.Returns ⟨ev.context room time, .exec s, ev.registers.state⟩ after.state.latest after.state) ∧
    ∀ p : Program,
      (∀ filenames, (ev.session time filenames).interpret n p = ev.report? time filenames (ev.evaluate n time p)) ∧
      (∀ after, (ev.evaluate n time p).registers? = some after →
        after.scope = ev.globals ∧ after.depth = 0 ∧ after.returning = false) ∧
      ev.evaluate n time p = ((new ev.globals ev.callLimit ev.registers.state.store).evaluate n time p).leaving
        (·.noted ev.registers.state.store.created ev.registers.state.store.captured) := by
  refine ⟨fun still => ⟨fun e => ?_, fun s => ?_⟩, fun p => ?_⟩
  · exact ⟨Visit.expr_eval still, (Visit.expr_follows n _ e still).restores, fun _ => Visit.expr_returning still⟩
  · exact ⟨Visit.stmt_exec still, (Visit.stmt_follows n _ s still).restores, fun _ => Visit.stmt_returning still⟩
  · exact ⟨fun filenames => interpret_session n filenames p, fun _ => evaluate_rests, evaluate_new n time ev p⟩

/-- The program `function deep(n) { while (true) { if (n) { missing; } return 1; } } [0, deep(true)];`. -/
def failing : Program where
  location := ⟨1, 1⟩
  statements :=
    [.function ⟨⟨1, 1⟩, "deep", ["n"], ⟨1, 18⟩,
        [.whileLoop ⟨1, 20⟩ (.boolean ⟨1, 27⟩ true) (.block ⟨1, 33⟩
          [.ifElse ⟨1, 35⟩ (.identifier ⟨1, 39⟩ "n")
            (.block ⟨1, 42⟩ [.expression ⟨1, 44⟩ (.identifier ⟨1, 44⟩ "missing")]) none,
            .returns ⟨1, 55⟩ (some (.number ⟨1, 62⟩ 1))])]⟩,
      .expression ⟨1, 70⟩ (.array ⟨1, 70⟩ [.number ⟨1, 71⟩ 0,
        .call ⟨1, 78⟩ (.identifier ⟨1, 74⟩ "deep") [.boolean ⟨1, 79⟩ true]])]

/-- The program `deep(false);`. -/
def goingOn : Program :=
  ⟨⟨1, 1⟩, [.expression ⟨1, 1⟩ (.call ⟨1, 5⟩ (.identifier ⟨1, 1⟩ "deep") [.boolean ⟨1, 6⟩ false])]⟩

/-- Behind a failure inside of an element, a call, a loop and blocks the next program is run as by a new evaluator. -/
theorem evaluate_restores_failing : ∃ (start : Evaluator) (left after fresh : Registers),
    start.evaluate 40 0 failing = .failed ⟨1, .undefinedVariable "missing"⟩ left ∧
    left.scope = start.globals ∧ left.depth = 0 ∧ left.returning = false ∧
    evaluate 40 0 { start with registers := left } goingOn = .done (some (.number 1)) after ∧
    (new start.globals start.callLimit left.state.store).evaluate 40 0 goingOn = .done (some (.number 1)) fresh ∧
    after.state.store.scopes = fresh.state.store.scopes ∧
    (Visit.stmt 40 ⟨start.callLimit, 9, 0⟩ (.returns ⟨1, 1⟩ none) left).Restores left := by
  let start := new (Session.start 8 0).globals 8 (Session.start 8 0).store
  have fails : (match start.evaluate 40 0 failing with
      | .failed error _ => some error
      | _ => none) = some ⟨1, .undefinedVariable "missing"⟩ := by decide +kernel
  have goesOn : (match start.evaluate 40 0 failing with
      | .failed _ left =>
        match evaluate 40 0 { start with registers := left } goingOn with
        | .done value _ => value
        | _ => none
      | _ => none) = some (.number 1) := by decide +kernel
  cases run : start.evaluate 40 0 failing with
  | done | unfinished =>
    rw [run] at fails
    cases fails
  | failed error left =>
    rw [run] at fails goesOn
    cases fails
    obtain ⟨scope, depth, still⟩ := ((evaluate_restores start 9 0 40).2 failing).2.1 left (by rw [run]; rfl)
    have restored := (evaluate_restores { start with registers := left } 9 0 40).1 still
    have same := ((evaluate_restores { start with registers := left } 9 0 40).2 goingOn).2.2
    dsimp only at goesOn
    cases again : evaluate 40 0 (new start.globals start.callLimit left.state.store) goingOn with
    | done value fresh =>
      rw [again] at same
      rw [same] at goesOn
      cases goesOn
      exact ⟨start, left, _, fresh, run, scope, depth, still, same, again, rfl, (restored.2 _).2.1⟩
    | failed | unfinished =>
      rw [again] at same
      rw [same] at goesOn
      cases goesOn

end Evaluator

end TinyScript
