import TinyScript.Proofs.Evaluation.Containment
import TinyScript.Proofs.Evaluation.Limit
import TinyScript.Proofs.Evaluation.Succession
import TinyScript.Proofs.Store.Scopes

namespace TinyScript

open Store Evaluation

variable {region : Node → Prop} {m w root : Moment} {outer : ScopeId} {bindings : Table Value} {st st' : State}
  {context : Context} {n k : Nat}

/-- At a moment a scope is opened, which lies in another one and binds some names from the start. -/
inductive Moment.Opens : Moment → ScopeId → Table Value → Prop
  | block {context : Context} {location : Location} {body : List Stmt} {st : State} :
    Opens ⟨context, .exec (.block location body), st⟩ context.scope .empty
  | call {context : Context} {line : Nat} {id : ClosureId} {arguments : List Value} {st : State} {closure : Closure} :
    st.store.closures[id]? = some closure → arguments.length = closure.literal.parameters.length →
    context.isFull = false → Opens ⟨context, .apply line (.closure id) arguments, st⟩ closure.scope
      (.ofList (closure.literal.parameters.zip arguments))
  | function {context : Context} {literal : FunctionLiteral} {st : State} : literal.name ≠ [] →
    Opens ⟨context, .eval (.function literal), st⟩ context.scope
      (.ofList [(literal.name, .closure st.store.closures.size)])

theorem Store.Lies.bindParameters {s : Store} {id : ScopeId} (lies : s.Lies id outer .empty) (parameters : List Text)
    (arguments : List Value) :
    (bindParameters id parameters arguments s).Lies id outer (.ofList (parameters.zip arguments)) := by
  have all (pairs : List (Text × Value)) {s : Store} {bindings : Table Value} (lies : s.Lies id outer bindings) :
      (pairs.foldl (fun s pair => s.define id pair.1 pair.2) s).Lies id outer
        (pairs.foldl (fun t pair => t.insert pair.1 pair.2) bindings) := by
    induction pairs generalizing s bindings with
    | nil => exact lies
    | cons pair pairs ih => exact ih (lies.define pair.1 pair.2)
  exact all (parameters.zip arguments) lies

/-- The state in which a named function has been made, in a scope that binds its name. -/
def Evaluation.naming (context : Context) (literal : FunctionLiteral) (st : State) : State :=
  let opened := (st.store.newScope (some context.scope)).2
  let closed := (opened.newClosure literal st.store.scopes.size).2
  { st with store := closed.define st.store.scopes.size literal.name (.closure st.store.closures.size) }

theorem Evaluation.naming_lies (context : Context) (literal : FunctionLiteral) (st : State) :
    (naming context literal st).store.Lies st.store.scopes.size context.scope
      (.ofList [(literal.name, .closure st.store.closures.size)]) := by
  have lies := (newScope_lies st.store context.scope).newClosure literal st.store.scopes.size
  exact lies.define literal.name (.closure st.store.closures.size)

theorem Evaluation.functionValue_named {literal : FunctionLiteral} (named : literal.name ≠ []) :
    functionValue context.inside literal st = .done (.closure st.store.closures.size) (naming context literal st) := by
  unfold functionValue
  rw [if_neg named]
  rfl

theorem Moment.script_named {literal : FunctionLiteral} (named : literal.name ≠ []) :
    (⟨context, .eval (.function literal), st⟩ : Moment).script = .ended (.done (.closure st.store.closures.size)
      { naming context literal st with latest := .closure st.store.closures.size }) := by
  show Step.bind (.ended (functionValue context.inside literal st)) _ = _
  rw [functionValue_named named]
  rfl

/-- The scope is opened before anything else is done: either a body is done in it and nothing behind, or a function is
made in it at once. -/
theorem Moment.Opens.enters (opens : m.Opens outer bindings) :
    (∃ body next, m.script = .part body next ∧ (∀ a st, ∃ outcome, next a st = .ended outcome) ∧
      body.context.scope = m.opened ∧ body.state.store.Lies m.opened outer bindings) ∨
    ∃ outcome last, m.script = .ended outcome ∧ outcome.state? = some last ∧
      last.store.Lies m.opened outer bindings := by
  cases opens with
  | @block context location body st =>
    have lies := newScope_lies st.store context.scope
    let inside : Moment := ⟨{ context.inside with scope := st.store.scopes.size }, .execAll none body,
      { st with store := (st.store.newScope (some context.scope)).2 }⟩
    refine .inl ⟨inside, _, rfl, fun completion st => ?_, rfl, lies⟩
    cases completion with
    | normal value => exact ⟨_, rfl⟩
    | returned value => exact ⟨_, rfl⟩
  | @call context line id arguments st closure found count free =>
    have lies := (newScope_lies st.store closure.scope).bindParameters closure.literal.parameters arguments
    have script : (⟨context, .apply line (.closure id) arguments, st⟩ : Moment).script =
        Script.enter context closure arguments st := by
      refine (Script.apply_closure context line id arguments st).trans ?_
      rw [found]
      dsimp only
      rw [if_neg (fun other => other count), free]
      rfl
    let store := Evaluation.bindParameters st.store.scopes.size closure.literal.parameters arguments
      (st.store.newScope (some closure.scope)).2
    let inside : Moment := ⟨context.called st.store.scopes.size, .execAll none closure.literal.body, { st with store }⟩
    refine .inl ⟨inside, _, script, fun completion st => ?_, rfl, lies⟩
    cases completion with
    | normal value => exact ⟨_, rfl⟩
    | returned value => exact ⟨_, rfl⟩
  | @function context literal st named =>
    have lies := naming_lies context literal st
    exact .inr ⟨_, _, script_named named, rfl, lies⟩

/-- What is done inside is done in the scope that has been opened. -/
theorem Moment.Opens.body (opens : m.Opens outer bindings) (comes : m.script.Comes w) :
    w.context.scope = m.opened ∧ w.state.store.Lies m.opened outer bindings := by
  rcases opens.enters with ⟨body, next, script, ended, scope, lies⟩ | ⟨outcome, last, script, _⟩
  · rw [script] at comes
    cases comes with
    | here => exact ⟨scope, lies⟩
    | @behind _ _ _ _ a st _ comes =>
      obtain ⟨outcome, same⟩ := ended a st
      rw [same] at comes
      cases comes
  · rw [script] at comes
    cases comes

/-- A named function captures the scope that has been opened, in which its name is bound to it. -/
theorem Moment.Opens.function_value {literal : FunctionLiteral} {v : Value}
    (opens : Opens ⟨context, .eval (.function literal), st⟩ outer bindings)
    (done : eval n context (.function literal) st = .done v st') : ∃ id, v = .closure id ∧
      st'.store.closures[id]? = some ⟨literal, st.store.scopes.size⟩ ∧
      st'.store.Lies st.store.scopes.size outer bindings := by
  cases opens with
  | function named =>
    cases n with
    | zero => cases done
    | succ n =>
      have run := Moment.run_succ ⟨context, .eval (.function literal), st⟩ n
      rw [script_named named] at run
      have same := run.symm.trans done
      cases same
      have lies := naming_lies context literal st
      exact ⟨_, rfl, by simp [naming, Store.define, Store.newClosure, Store.newScope], lies⟩

/-- What is done inside of a task is done in its own scope, unless it opens one. -/
theorem Moment.inner_cases (comes : m.script.Comes w) :
    m.inner = m.context.scope ∨ m.inner = m.opened ∧ ∃ outer bindings, m.Opens outer bindings := by
  obtain ⟨context, task, st⟩ := m
  cases task with
  | exec s =>
    cases s with
    | block location body => exact .inr ⟨rfl, _, _, .block⟩
    | _ => exact .inl rfl
  | apply line callee arguments =>
    refine .inr ⟨rfl, ?_⟩
    cases callee with
    | closure id =>
      have script : (⟨context, .apply line (.closure id) arguments, st⟩ : Moment).script = _ :=
        Script.apply_closure context line id arguments st
      rw [script] at comes
      cases found : st.store.closures[id]? with
      | none =>
        rw [found] at comes
        cases comes
      | some closure =>
        rw [found] at comes
        dsimp only at comes
        by_cases count : arguments.length = closure.literal.parameters.length
        · by_cases full : context.isFull
          · rw [if_neg (fun other => other count), if_pos full] at comes
            cases comes
          · exact ⟨_, _, .call found count (Bool.eq_false_iff.2 full)⟩
        · rw [if_pos count] at comes
          cases comes
    | _ => cases comes
  | _ => exact .inl rfl

namespace Moment

/-- The scope in which a task is done is in a store, and so is the one that it opens. -/
structure ScopesIn (m : Moment) (s : Store) : Prop where
  current : s.Has (.scope m.context.scope)
  opened : ∀ outer bindings, m.Opens outer bindings → s.Has (.scope m.opened)

theorem ScopesIn.edits {s s' : Store} (scopes : m.ScopesIn s) (edits : Edits region s s') : m.ScopesIn s' :=
  ⟨Edits.has edits _ scopes.current, fun _ _ opens => Edits.has edits _ (scopes.opened _ _ opens)⟩

namespace Contained

/-- Whatever a run does is done in the scope in which it began, or in one that has been opened around it. -/
theorem scope_opened (contained : root.Contained region) (within : TinyScript.Within root k w) :
    w.context.scope = root.context.scope ∨ ∃ around calls m outer bindings, TinyScript.Within root around m ∧
      TinyScript.Within m calls w ∧ m.Opens outer bindings ∧ w.context.scope = m.opened := by
  induction within with
  | start => exact .inl rfl
  | @part k m w within comes ih =>
    have scope : w.context.scope = m.inner :=
      ((containment_holds region).part (contained.within within).1 comes).2.1
    rcases inner_cases comes with own | ⟨opened, outer, bindings, opens⟩
    · rw [own] at scope
      rcases ih with same | ⟨around, calls, opener, outer, bindings, before, inside, opens, same⟩
      · exact .inl (scope.trans same)
      · exact .inr ⟨around, _, opener, outer, bindings, before, .part inside comes, opens, scope.trans same⟩
    · exact .inr ⟨k, _, m, outer, bindings, within, .part .start comes, opens, scope.trans opened⟩

end Contained

/-- A scope that has been opened is there as long as the run goes on. -/
theorem containment_settles (region : Node → Prop) :
    (containment region).Settles fun m st => m.ScopesIn st.store where
  mono scopes edits := scopes.edits edits
  parts {m w} contained comes := by
    have holds := containment_holds region
    refine ⟨Edits.has (holds.part contained comes).2.2 _ contained.scope.2, fun outer bindings opens => ?_⟩
    exact (opens.body comes).2.has
  ends {m n st} contained ended := by
    have holds := containment_holds region
    refine ⟨Edits.has ((contained.run n).edits ended) _ contained.scope.2, fun outer bindings opens => ?_⟩
    cases n with
    | zero =>
      rw [m.run_zero] at ended
      cases ended
    | succ n =>
      have meets := holds.scripts m contained
      rw [m.run_succ] at ended
      rcases opens.enters with ⟨body, next, script, _, _, lies⟩ | ⟨outcome, last, script, stops, lies⟩
      · rw [script] at meets ended
        have edits := (meets.begun.run fun m contained => holds.run contained n).2 st ended
        exact Edits.has edits _ lies.has
      · rw [script, Step.run, stops] at ended
        cases ended
        exact lies.has

/-- A later moment opens neither the scope in which an earlier one is done nor the scope that this one opens. -/
def Apart (earlier later : Moment) : Prop :=
  ∀ outer bindings, later.Opens outer bindings → later.opened ≠ earlier.context.scope ∧
    ∀ outer bindings, earlier.Opens outer bindings → later.opened ≠ earlier.opened

/-- The scope that is opened has the next free place, and those that are there have lower ones. -/
theorem ScopesIn.apart (scopes : w.ScopesIn m.state.store) : w.Apart m := fun _ _ _ =>
  ⟨Nat.ne_of_gt scopes.current, fun outer bindings opens => Nat.ne_of_gt (scopes.opened outer bindings opens)⟩

/-- The scope that is opened at a moment is a new one, to which nothing refers. What is done inside is done in it, and a
function that is made in it captures it. -/
structure OpensFresh (m : Moment) (outer : ScopeId) (bindings : Table Value) : Prop where
  new : ¬ m.state.store.Has (.scope m.opened)
  unreferred : ∀ n, Node.scope m.opened ∉ m.state.store.edges n
  body : ∀ w, m.script.Comes w → w.context.scope = m.opened ∧ w.state.store.Lies m.opened outer bindings
  value : ∀ context literal st, m = ⟨context, .eval (.function literal), st⟩ → ∀ n v st',
    eval n context (.function literal) st = .done v st' → ∃ id, v = .closure id ∧
      st'.store.closures[id]? = some ⟨literal, m.opened⟩ ∧ st'.store.Lies m.opened outer bindings

theorem Contained.opens_fresh (contained : m.Contained region) (opens : m.Opens outer bindings) :
    m.OpensFresh outer bindings where
  new := Nat.lt_irrefl _
  unreferred n edge := absurd (contained.ready.healthy.has n _ edge) (Nat.lt_irrefl _)
  body w comes := opens.body comes
  value context literal st same n v st' done := by
    subst same
    exact opens.function_value done

end Moment

end TinyScript
