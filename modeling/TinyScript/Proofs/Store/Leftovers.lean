import TinyScript.Proofs.Store.Scopes
import TinyScript.Proofs.Store.Shrinking

namespace TinyScript

theorem Value.node?_ne_scope (v : Value) (id : ScopeId) : v.node? ≠ some (.scope id) := by
  cases v <;> simp [node?]

namespace Store

variable {region : Node → Prop} {s s' : Store} {n m : Node} {id : ScopeId}

theorem refers_scope_iff {outer : ScopeId} : s.Refers (.scope id) (.scope outer) ↔ s.outer? id = some outer := by
  simp [Refers, edges, Value.node?_ne_scope]

theorem Shrinks.placed (shrinks : s.Shrinks s') (placed : s.Placed) : s'.Placed where
  older id outer lies := placed.older id outer (refers_scope_iff.1 (shrinks.refers _ _ (refers_scope_iff.2 lies)))
  closures id c found := by
    have edge : s'.Refers (.closure id) (.scope c.scope) := by simp [Refers, edges, found]
    have edge := shrinks.refers _ _ edge
    obtain ⟨d, found, same⟩ : ∃ d, s.closures[id]? = some d ∧ d.scope = c.scope := by simpa [Refers, edges] using edge
    exact (shrinks.has _).2 (same ▸ placed.closures id d found)

/-- A scope that binds nothing refers only to the scope around it. -/
theorem Refers.scope_of_empty (edge : s.Refers (.scope id) m) (empty : s.bindings id = .empty) :
    ∃ outer, m = .scope outer := by
  rcases List.mem_append.1 edge with bound | around
  · rw [empty] at bound
    cases bound
  · obtain ⟨outer, _, same⟩ := Option.map_eq_some_iff.1 (Option.mem_toList.1 around)
    exact ⟨outer, same.symm⟩

theorem Refers.of_closure {k : ClosureId} (edge : s.Refers (.closure k) m) :
    ∃ c, s.closures[k]? = some c ∧ m = .scope c.scope := by
  obtain ⟨c, found, same⟩ := Option.map_eq_some_iff.1 (Option.mem_toList.1 edge)
  exact ⟨c, found, same.symm⟩

/-- What an aggregate refers to is another one that it holds, or a closure. -/
theorem Refers.of_aggregate (edge : s.Refers n m) (isAggregate : n.isAggregate) :
    s.Child n m ∨ ∃ k, m = .closure k := by
  have edge : m ∈ (s.held n).filterMap Value.node? := by
    cases n with
    | array id => exact edge
    | object id => exact edge
    | closure id => cases isAggregate
    | scope id => cases isAggregate
  cases m with
  | array id => exact .inl (List.mem_filter.2 ⟨edge, rfl⟩)
  | object id => exact .inl (List.mem_filter.2 ⟨edge, rfl⟩)
  | closure id => exact .inr ⟨id, rfl⟩
  | scope id =>
    obtain ⟨v, _, node⟩ := List.mem_filterMap.1 edge
    exact absurd node (v.node?_ne_scope id)

/-- A scope binds something that leads back to it. -/
def Loops (s : Store) (id : ScopeId) : Prop :=
  ∃ m, s.Refers (.scope id) m ∧ (∀ outer, m ≠ .scope outer) ∧ s.Reaches m (.scope id)

/-- A reference of any other kind than from a scope to what it binds. -/
def Tight (s : Store) (n m : Node) : Prop := s.Refers n m ∧ ∀ id, n = .scope id → ∃ outer, m = .scope outer

/-- A way is made up of tight references, or somewhere it leads from a scope to what it binds. -/
theorem tight_or_bound (way : Relation.TransGen s.Refers n m) :
    Relation.TransGen s.Tight n m ∨ ∃ id k, s.Reaches n (.scope id) ∧ s.Refers (.scope id) k ∧
      (∀ outer, k ≠ .scope outer) ∧ s.Reaches k m := by
  have step {a b : Node} (edge : s.Refers a b) :
      s.Tight a b ∨ ∃ id, a = .scope id ∧ ∀ outer, b ≠ .scope outer := by
    rcases Classical.em (∃ id, a = .scope id ∧ ∀ outer, b ≠ .scope outer) with found | none
    · exact .inr found
    · refine .inl ⟨edge, fun id same => Classical.byContradiction fun other => none ⟨id, same, ?_⟩⟩
      exact not_exists.1 other
  induction way with
  | single edge =>
    rcases step edge with tight | ⟨id, rfl, bound⟩
    · exact .inl (.single tight)
    · exact .inr ⟨id, _, .refl, edge, bound, .refl⟩
  | tail before edge ih =>
    rcases ih with before' | ⟨id, k, first, bind, bound, later⟩
    · rcases step edge with tight | ⟨id, rfl, bound⟩
      · exact .inl (before'.tail tight)
      · exact .inr ⟨id, _, before.to_reflTransGen, edge, bound, .refl⟩
    · exact .inr ⟨id, k, first, bind, bound, later.tail edge⟩

/-- A store in which no session goes on. Aggregates do not hold themselves, scopes lie in older ones, and neither a
scope in which a closure was made nor one that lies in no other binds an array, an object or a closure. -/
structure AtRest (s : Store) : Prop where
  acyclic : ∀ n, ¬ s.HoldsItself n
  older : ∀ id outer, s.Refers (.scope id) (.scope outer) → outer < id
  captured : ∀ k id m, s.Refers (.closure k) (.scope id) → s.Refers (.scope id) m → ∃ outer, m = .scope outer
  outermost : ∀ id m, s.Refers (.scope id) m → ∃ outer, s.Refers (.scope id) (.scope outer)

namespace AtRest

/-- Tight references lead from aggregates to closures, from there to scopes, and from those to older ones. -/
theorem tight_cases (rest : s.AtRest) (way : Relation.TransGen s.Tight n m) :
    (∃ outer, m = .scope outer ∧ ∀ id, n = .scope id → outer < id) ∨ ((∃ k, m = .closure k) ∧ n.isAggregate) ∨
      Relation.TransGen s.Child n m := by
  have step {a b : Node} (tight : s.Tight a b) :
      (∃ outer, b = .scope outer ∧ ∀ id, a = .scope id → outer < id) ∨
        ((∃ k, b = .closure k) ∨ s.Child a b) ∧ a.isAggregate := by
    obtain ⟨edge, out⟩ := tight
    cases a with
    | scope id =>
      obtain ⟨outer, rfl⟩ := out id rfl
      exact .inl ⟨outer, rfl, fun i same => Node.scope.inj same ▸ rest.older id outer edge⟩
    | closure k =>
      obtain ⟨c, _, rfl⟩ := edge.of_closure
      exact .inl ⟨c.scope, rfl, fun i same => by cases same⟩
    | array id => exact .inr ⟨(edge.of_aggregate rfl).symm, rfl⟩
    | object id => exact .inr ⟨(edge.of_aggregate rfl).symm, rfl⟩
  induction way with
  | single tight =>
    rcases step tight with out | ⟨closure | child, isAggregate⟩
    · exact .inl out
    · exact .inr (.inl ⟨closure, isAggregate⟩)
    · exact .inr (.inr (.single child))
  | tail _ tight ih =>
    rcases step tight with ⟨outer, rfl, below⟩ | ⟨next, isAggregate⟩
    · refine .inl ⟨outer, rfl, fun id same => ?_⟩
      subst same
      rcases ih with ⟨between, rfl, lower⟩ | ⟨_, isAggregate⟩ | way
      · exact Nat.lt_trans (below between rfl) (lower id rfl)
      · cases isAggregate
      · obtain ⟨k, child, _⟩ := Relation.TransGen.head'_iff.1 way
        cases child.parent
    · rcases ih with ⟨between, rfl, _⟩ | ⟨⟨k, rfl⟩, _⟩ | way
      · cases isAggregate
      · cases isAggregate
      · rcases next with closure | child
        · obtain ⟨k, child, _⟩ := Relation.TransGen.head'_iff.1 way
          exact .inr (.inl ⟨closure, child.parent⟩)
        · exact .inr (.inr (way.tail child))

/-- Every cycle of references passes through a scope that binds something which leads back to it. -/
theorem loops_of_cycle (rest : s.AtRest) (cycle : Relation.TransGen s.Refers n n) :
    ∃ id, s.Reaches n (.scope id) ∧ s.Loops id := by
  rcases tight_or_bound cycle with tight | ⟨id, k, before, bind, bound, after⟩
  · exfalso
    rcases rest.tight_cases tight with ⟨id, rfl, lower⟩ | ⟨⟨k, rfl⟩, isAggregate⟩ | cyclic
    · exact Nat.lt_irrefl id (lower id rfl)
    · cases isAggregate
    · exact rest.acyclic n cyclic
  · exact ⟨id, before, k, bind, bound, after.trans before⟩

end AtRest

/-- A scope that keeps what it binds when a session ends: it lies in another scope, and no closure was made in it. -/
structure PassedOver (s : Store) (id : ScopeId) : Prop where
  inner : ∃ outer, s.Refers (.scope id) (.scope outer)
  uncaptured : ∀ k, ¬ s.Refers (.closure k) (.scope id)

/-- Only a scope that has been passed over still binds what leads back to it. -/
theorem AtRest.passedOver (rest : s.AtRest) (loops : s.Loops id) : s.PassedOver id := by
  obtain ⟨m, edge, bound, _⟩ := loops
  refine ⟨rest.outermost id m edge, fun k captures => ?_⟩
  obtain ⟨outer, same⟩ := rest.captured k id m captures edge
  exact bound outer same

/-- The scopes in which the closures of a region were made are kept in mind. -/
def Captures (region : Node → Prop) (s : Store) : Prop :=
  ∀ (k : ClosureId) (c : Closure), region (.closure k) → s.closures[k]? = some c → c.scope ∈ s.captured

theorem Edit.captures (edit : Edit region s s') (captures : s.Captures region) : s'.Captures region := by
  cases edit with
  | @newClosure literal scope _ =>
    intro k c inside found
    have found : (s.closures.push ⟨literal, scope⟩)[k]? = some c := found
    rw [Array.getElem?_push] at found
    split at found
    · cases found
      exact Array.mem_push_self
    · exact Array.mem_push_of_mem _ (captures k c inside found)
  | newArray _ => exact captures
  | newObject _ => exact captures
  | newScope _ => exact captures
  | append _ _ => exact captures
  | define _ _ => exact captures

theorem Edits.captures (edits : Edits region s s') (captures : s.Captures region) : s'.Captures region := by
  induction edits with
  | refl => exact captures
  | tail _ edit ih => exact edit.captures ih

end Store

end TinyScript
