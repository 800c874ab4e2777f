import TinyScript.Proofs.Session.Scopes
import TinyScript.Proofs.Store.Leftovers

namespace TinyScript

open Store

variable {before : Store} {s : Session} {held : List Value} {region : Node → Prop} {n m : Node} {id : ScopeId}

/-- Arrays and objects aside, a session ends by clearing scopes. -/
theorem Session.teardown_edges (s : Session) (held : List Value) (outside : ¬ n.isAggregate) :
    (s.teardown held).edges n = (s.released.clearScope s.globals).edges n := by
  obtain ⟨_, _, closures, scopes⟩ := s.released.clearNodes_emptied (s.released.backSources (s.searched held))
  rw [teardown_eq, breakCycles]
  cases n with
  | array id => exact absurd rfl outside
  | object id => exact absurd rfl outside
  | closure id => simp only [edges, clearScope, closures]
  | scope id => simp only [edges, bindings, outer?, clearScope, scopes]

theorem Session.teardown_refers (outside : ¬ n.isAggregate) :
    (s.teardown held).Refers n m ↔ (s.released.clearScope s.globals).Refers n m := by
  rw [Refers, Refers, s.teardown_edges held outside]

/-- What a scope lies in does not change. -/
theorem Session.teardown_refers_outer {outer : ScopeId} :
    (s.teardown held).Refers (.scope id) (.scope outer) ↔ s.store.outer? id = some outer := by
  rw [teardown_refers (by simp [Node.isAggregate]), refers_scope_iff, clearScope_outer?, released,
    ← Array.foldl_toList, clearScopes_outer?]

/-- Scopes that have been captured, and the globals, do not bind anything any more. -/
theorem Session.teardown_scope_of_cleared (edge : (s.teardown held).Refers (.scope id) m)
    (cleared : id ∈ s.store.captured ∨ id = s.globals) : ∃ outer, m = .scope outer := by
  refine ((teardown_refers (by simp [Node.isAggregate])).1 edge).scope_of_empty ?_
  rw [clearScope_bindings]
  split
  · rfl
  · next other =>
    rw [released, ← Array.foldl_toList, clearScopes_bindings]
    exact if_pos (cleared.resolve_right (Ne.symm other)).val

theorem newGlobals_captures (store : Store) (healthy : store.Healthy region)
    (missing : ∀ k, region (.closure k) → ¬ store.Has (.closure k)) :
    (Session.newGlobals store).2.Captures region := by
  have none : (store.newScope .none).2.Captures region := fun k c inside found =>
    absurd (Array.getElem?_eq_some_iff.1 found).1 (missing k inside)
  exact Edits.captures (newGlobals_edits store healthy).2 none

/-- The scopes in which closures have been made since a session began are kept in mind. -/
theorem Reached.captures (reached : Reached before s held) : s.store.Captures fun n => ¬ before.Has n := by
  induction reached with
  | started callLimit time => exact newGlobals_captures .empty empty_healthy fun k new => new
  | interpreted reached run ih => exact Edits.captures (reached.sound.interpret_edits run) ih
  | ran reached run ih => exact Edits.captures (reached.sound.run_edits run) ih
  | got _ _ ih => exact ih
  | looked _ _ _ _ ih => exact ih
  | dropped _ _ ih => exact ih
  | pruned _ _ ih => exact ih
  | reset reached _ => exact newGlobals_captures _ reached.sound.teardown_healthy.forget fun k new => new

/-- When a session ends that began with a store at rest, its store is at rest. -/
theorem Reached.teardown_atRest (reached : Reached before s held) (rest : before.AtRest) :
    (s.teardown held).AtRest := by
  have sound := reached.sound
  have shrinks := s.teardown_shrinks held
  -- What was there when the session began refers to no more than it did then.
  have old {n m : Node} (there : before.Has n) (edge : (s.teardown held).Refers n m) : before.Refers n m := by
    have edge := shrinks.refers n m edge
    unfold Refers at edge
    rwa [sound.edges_eq n there] at edge
  have lies {id : ScopeId} {m : Node} (new : ¬ before.Has (.scope id))
      (edge : (s.teardown held).Refers (.scope id) m) :=
    reached.layered.outer id ⟨new, (shrinks.refers _ _ edge).has⟩
  constructor
  case acyclic =>
    intro n cyclic
    obtain ⟨id, -, cyclic⟩ := (shrinks.healthy sound.healthy).array_of_holdsItself cyclic
    by_cases there : before.Has (.array id)
    · exact rest.acyclic _
        (holdsItself_of_agree sound.closed sound.held_eq there (Session.teardown_holdsItself cyclic))
    · exact sound.teardown_array there cyclic
  case older =>
    intro id outer edge
    by_cases there : before.Has (.scope id)
    · exact rest.older id outer (old there edge)
    · have out := Session.teardown_refers_outer.1 edge
      rcases lies there edge with rfl | ⟨outer', out', older, _⟩
      · rw [reached.layered.outermost] at out
        cases out
      · rw [out'] at out
        exact Option.some.inj out ▸ older
  case captured =>
    intro k id m capture edge
    by_cases there : before.Has (.closure k)
    · have inside := sound.closed _ _ there (old there capture)
      exact rest.captured k id m (old there capture) (old inside edge)
    · obtain ⟨c, found, same⟩ := (shrinks.refers _ _ capture).of_closure
      cases same
      exact Session.teardown_scope_of_cleared edge (.inl (reached.captures k c there found))
  case outermost =>
    intro id m edge
    by_cases there : before.Has (.scope id)
    · obtain ⟨outer, out⟩ := rest.outermost id m (old there edge)
      have out : s.store.Refers (.scope id) (.scope outer) := by
        unfold Refers
        rwa [sound.edges_eq _ there]
      exact ⟨outer, Session.teardown_refers_outer.2 (refers_scope_iff.1 out)⟩
    · rcases lies there edge with globals | ⟨outer, out, _⟩
      · obtain ⟨outer, rfl⟩ := Session.teardown_scope_of_cleared edge (.inr globals)
        exact ⟨outer, edge⟩
      · exact ⟨outer, Session.teardown_refers_outer.2 out⟩

theorem empty_atRest : Store.empty.AtRest := by
  have none {n m : Node} (edge : Store.empty.Refers n m) : False := by
    have has := edge.has
    cases n <;> simp [Has, Store.empty] at has
  exact {
    acyclic := fun n cyclic => by
      obtain ⟨m, child, _⟩ := Relation.TransGen.head'_iff.1 cyclic
      exact none child.refers
    older := fun id outer edge => (none edge).elim
    captured := fun k id m edge => (none edge).elim
    outermost := fun id m edge => (none edge).elim }

/-- What all sessions before have left behind is at rest. -/
theorem Reached.atRest (reached : Reached before s held) : before.AtRest := by
  induction reached with
  | started callLimit time => exact empty_atRest
  | interpreted _ _ ih => exact ih
  | ran _ _ ih => exact ih
  | got _ _ ih => exact ih
  | looked _ _ _ _ ih => exact ih
  | dropped _ _ ih => exact ih
  | pruned _ _ ih => exact ih
  | reset reached ih => exact reached.teardown_atRest ih

namespace Sound

/-- What is left of a session that has been reset refers to what it referred to when the session ended. -/
theorem reset_refers (sound : Sound before s held) (has : s.store.Has n) :
    (s.reset held).store.Refers n m ↔ (s.teardown held).Refers n m := by
  rw [Refers, Refers, sound.reset.edges_eq n (((s.teardown_shrinks held).has n).2 has)]

theorem reset_loops (sound : Sound before s held) (has : s.store.Has (.scope id)) (loops : (s.teardown held).Loops id) :
    (s.reset held).store.Loops id := by
  have anew := sound.reset
  obtain ⟨m, edge, bound, back⟩ := loops
  have closed (n m : Node) (inside : (s.teardown held).Has n) (edge : (s.reset held).store.Refers n m) :
      (s.teardown held).Has m := by
    unfold Refers at edge
    rw [anew.edges_eq n inside] at edge
    exact anew.closed n m inside edge
  have there : (s.teardown held).Has m := anew.closed _ m (((s.teardown_shrinks held).has _).2 has) edge
  have back := reaches_of_agree closed (fun n inside => (anew.edges_eq n inside).symm) there back
  exact ⟨m, (sound.reset_refers has).2 edge, bound, back.2⟩

theorem reset_passedOver (sound : Sound before s held) (has : s.store.Has (.scope id))
    (passed : (s.teardown held).PassedOver id) : (s.reset held).store.PassedOver id := by
  obtain ⟨outer, out⟩ := passed.inner
  refine ⟨⟨outer, (sound.reset_refers has).2 out⟩, fun k capture => ?_⟩
  by_cases there : s.store.Has (.closure k)
  · exact passed.uncaptured k ((sound.reset_refers there).1 capture)
  · -- A closure of the new session captures no scope of the old one.
    have new : ¬ (s.teardown held).Has (.closure k) := mt ((s.teardown_shrinks held).has _).1 there
    exact sound.reset.healthy.closed _ _ new capture (((s.teardown_shrinks held).has _).2 has)

end Sound

/-- When a session has been reset, no array and no object of it holds itself, and the scopes in which closures were made
refer only to the scopes around them. Nothing at all refers to itself, on whatever way, exactly if no scope that has
been passed over binds something that leads back to it. -/
theorem Reached.reset_acyclic_iff (reached : Reached before s held) :
    (∀ n, s.store.Has n → ¬ (s.reset held).store.HoldsItself n) ∧
      (∀ k id m, s.store.Has (.closure k) → (s.reset held).store.Refers (.closure k) (.scope id) →
        (s.reset held).store.Refers (.scope id) m → ∃ outer, m = .scope outer) ∧
      ((∀ n, s.store.Has n → ¬ Relation.TransGen (s.reset held).store.Refers n n) ↔
        ∀ id, s.store.Has (.scope id) → (s.reset held).store.PassedOver id → ¬ (s.reset held).store.Loops id) := by
  have sound := reached.sound
  have anew := sound.reset
  have rest := reached.teardown_atRest reached.atRest
  have there {n : Node} (has : s.store.Has n) : (s.teardown held).Has n := ((s.teardown_shrinks held).has n).2 has
  have here {n : Node} (has : (s.teardown held).Has n) : s.store.Has n := ((s.teardown_shrinks held).has n).1 has
  refine ⟨fun n has cyclic => ?_, fun k id m has capture edge => ?_, fun acyclic id has _ loops => ?_,
    fun unlooped n has cycle => ?_⟩
  · exact rest.acyclic n (holdsItself_of_agree anew.closed anew.held_eq (there has) cyclic)
  · have capture := (sound.reset_refers has).1 capture
    have inside := here (anew.closed _ _ (there has) capture)
    exact rest.captured k id m capture ((sound.reset_refers inside).1 edge)
  · obtain ⟨m, edge, _, back⟩ := loops
    exact acyclic _ has (.head' edge back)
  · obtain ⟨id, way, loops⟩ :=
      rest.loops_of_cycle (cycle_of_agree anew.closed anew.edges_eq (there has) cycle)
    have inside := here (reaches_of_agree anew.closed (fun _ _ => rfl) (there has) way).1
    exact unlooped id inside (sound.reset_passedOver inside (rest.passedOver loops)) (sound.reset_loops inside loops)

/-- A function that is held by the scope in which it was made is let go. -/
theorem Reached.reset_acyclic_iff_captured : ∃ report : Report,
    (Session.start 8 0).run 60 "function f() { function g() { return g; } return g; } f();" "main" = some report ∧
      Reached .empty report.session [.closure 1] ∧
      Relation.TransGen report.session.store.Refers (.scope 1) (.scope 1) ∧
      ∀ n, report.session.store.Has n →
        ¬ Relation.TransGen (report.session.reset [.closure 1]).store.Refers n n := by
  have runs : ((Session.start 8 0).run 60
      "function f() { function g() { return g; } return g; } f();" "main").map (fun report =>
        (report.ending.value?, report.session.store.edges (.scope 1), report.session.store.edges (.closure 1),
          report.session.store.outer? 0, report.session.store.scopes.size)) =
      some (some (.closure 1), [.closure 1, .scope 0], [.scope 1], none, 2) := by
    decide +kernel
  have leaves : ((Session.start 8 0).run 60
      "function f() { function g() { return g; } return g; } f();" "main").map (fun report =>
        (report.session.released.clearScope report.session.globals).edges (.closure 1)) = some [.scope 1] := by
    decide +kernel
  obtain ⟨report, run, shown⟩ := Option.map_eq_some_iff.1 runs
  obtain ⟨value, shown⟩ := Prod.mk.inj shown
  obtain ⟨binds, shown⟩ := Prod.mk.inj shown
  obtain ⟨captures, shown⟩ := Prod.mk.inj shown
  obtain ⟨globals, size⟩ := Prod.mk.inj shown
  rw [run] at leaves
  have reached := (Reached.started 8 0).ran run
  rw [value] at reached
  have cycle : Relation.TransGen report.session.store.Refers (.scope 1) (.scope 1) :=
    .tail (.single (by simp [Refers, binds] : report.session.store.Refers (.scope 1) (.closure 1)))
      (by simp [Refers, captures])
  have capture : (report.session.teardown [.closure 1]).Refers (.closure 1) (.scope 1) :=
    (Session.teardown_refers (by simp [Node.isAggregate])).2 (by simp [Refers, Option.some.inj leaves])
  have made := ((report.session.teardown_shrinks _).has _).1 capture.has
  refine ⟨report, run, reached, cycle, (reached.reset_acyclic_iff.2.2).2 fun id has passed _ => ?_⟩
  have few : id < 2 := by simpa [Has, size] using has
  obtain rfl | rfl : id = 0 ∨ id = 1 := Nat.le_one_iff_eq_zero_or_eq_one.1 (Nat.le_of_lt_succ few)
  · obtain ⟨outer, out⟩ := passed.inner
    have out := Session.teardown_refers_outer.1 ((reached.sound.reset_refers has).1 out)
    rw [globals] at out
    cases out
  · exact passed.uncaptured 1 ((reached.sound.reset_refers made).2 capture)

/-- A function that is put into the scope of a call from within a block. -/
def keeping : Text :=
  "function f(l) { var g; { g = function() {}; } } var l = []; var a = []; var b = [a]; push(a, b); push(l, b); f(l);"

/-- The scope of the call binds the function, which captures the scope of the block, which lies in the scope of the
call. No function is made in the scope of the call itself, so a reset passes it over and leaves the cycle as it is. -/
theorem Reached.reset_leaves_cycle : ∃ report : Report, (Session.start 8 0).run 60 keeping "main" = some report ∧
    Reached .empty report.session [.array 2, .array 1, .null] ∧ report.session.store.Has (.scope 1) ∧
      Relation.TransGen (report.session.reset [.array 2, .array 1, .null]).store.Refers (.scope 1) (.scope 1) := by
  have runs : ((Session.start 8 0).run 60 keeping "main").map (fun report =>
      (report.ending.value?, report.session.get? "a", report.session.get? "b")) =
      some (some .null, some (.array 1), some (.array 2)) := by
    decide +kernel
  have leaves : ((Session.start 8 0).run 60 keeping "main").map (fun report =>
      ((report.session.released.clearScope report.session.globals).edges (.scope 1),
        (report.session.released.clearScope report.session.globals).edges (.closure 1),
        (report.session.released.clearScope report.session.globals).edges (.scope 2))) =
      some ([.closure 1, .array 0, .scope 0], [.scope 2], [.scope 1]) := by
    decide +kernel
  obtain ⟨report, run, shown⟩ := Option.map_eq_some_iff.1 runs
  obtain ⟨value, shown⟩ := Prod.mk.inj shown
  obtain ⟨a, b⟩ := Prod.mk.inj shown
  rw [run] at leaves
  obtain ⟨binds, leaves⟩ := Prod.mk.inj (Option.some.inj leaves)
  obtain ⟨captures, lies⟩ := Prod.mk.inj leaves
  have reached := (Reached.started 8 0).ran run
  rw [value] at reached
  have reached : Reached .empty report.session [.array 2, .array 1, .null] := (reached.got a).got b
  have edge {n m : Node} (outside : ¬ n.isAggregate)
      (mem : m ∈ (report.session.released.clearScope report.session.globals).edges n) :
      report.session.store.Has n ∧ (report.session.reset [.array 2, .array 1, .null]).store.Refers n m := by
    have refers : (report.session.teardown [.array 2, .array 1, .null]).Refers n m :=
      (Session.teardown_refers outside).2 mem
    have has := ((report.session.teardown_shrinks _).has n).1 refers.has
    exact ⟨has, (reached.sound.reset_refers has).2 refers⟩
  obtain ⟨has, toClosure⟩ := edge (n := .scope 1) (m := .closure 1) (by simp [Node.isAggregate]) (by simp [binds])
  obtain ⟨_, toBlock⟩ := edge (n := .closure 1) (m := .scope 2) (by simp [Node.isAggregate]) (by simp [captures])
  obtain ⟨_, toCall⟩ := edge (n := .scope 2) (m := .scope 1) (by simp [Node.isAggregate]) (by simp [lies])
  exact ⟨report, run, reached, has, .tail (.tail (.single toClosure) toBlock) toCall⟩

end TinyScript
