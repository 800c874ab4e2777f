import TinyScript.Proofs.Store.Edits

namespace TinyScript.Store

variable {region : Node → Prop} {s s' : Store} {globals id : ScopeId}

/-- A way outwards: every scope lies in the next one, and the last one in none. -/
inductive Outwards (s : Store) : List ScopeId → Prop
  | last {id : ScopeId} : s.outer? id = none → Outwards s [id]
  | next {id outer : ScopeId} {path : List ScopeId} :
    s.outer? id = some outer → Outwards s (outer :: path) → Outwards s (id :: outer :: path)

/-- From a scope the way outwards comes to the globals in the end, and to no scope twice. It is the one on which names
are looked up. -/
structure Rooted (s : Store) (globals id : ScopeId) : Prop where
  begins : (s.chain id).head? = some id
  outwards : s.Outwards (s.chain id)
  nodup : (s.chain id).Nodup
  ends : (s.chain id).getLast? = some globals

/-- In a region the globals lie in no scope, and every other scope lies in an older one. -/
structure Layered (region : Node → Prop) (globals : ScopeId) (s : Store) : Prop where
  outermost : s.outer? globals = none
  outer : ∀ id, s.Within region (.scope id) → id = globals ∨
    ∃ outer, s.outer? id = some outer ∧ outer < id ∧ s.Within region (.scope outer)

theorem chain_of_none (none : s.outer? id = none) : s.chain id = [id] := by rw [chain, none]

theorem chain_of_lt {outer : ScopeId} (lies : s.outer? id = some outer) (older : outer < id) :
    s.chain id = id :: s.chain outer := by
  rw [chain, lies]
  dsimp only
  rw [if_pos older]

theorem head?_chain (s : Store) (id : ScopeId) : (s.chain id).head? = some id := by
  rw [chain]
  rfl

theorem le_of_mem_chain (s : Store) {id k : ScopeId} (mem : k ∈ s.chain id) : k ≤ id := by
  fun_induction chain s id with
  | case1 id ih =>
    rcases List.mem_cons.1 mem with rfl | mem
    · exact Nat.le_refl _
    · split at mem
      · next outer found =>
        split at mem
        · next older => exact Nat.le_trans (ih outer older mem) (Nat.le_of_lt older)
        · cases mem
      · cases mem

theorem nodup_chain (s : Store) (id : ScopeId) : (s.chain id).Nodup := by
  fun_induction chain s id with
  | case1 id ih =>
    refine List.nodup_cons.2 ⟨fun mem => ?_, ?_⟩
    · split at mem
      · next outer found =>
        split at mem
        · next older => exact absurd (s.le_of_mem_chain mem) (Nat.not_le.2 older)
        · cases mem
      · cases mem
    · split
      · next outer found =>
        split
        · next older => exact ih outer older
        · exact .nil
      · exact .nil

/-- From every scope of the region the way outwards comes to the globals. -/
theorem Layered.rooted (layered : s.Layered region globals) (within : s.Within region (.scope id)) :
    s.Rooted globals id := by
  suffices s.Outwards (s.chain id) ∧ (s.chain id).getLast? = some globals from
    ⟨s.head?_chain id, this.1, s.nodup_chain id, this.2⟩
  induction id using Nat.strongRecOn with
  | ind id ih =>
    rcases layered.outer id within with rfl | ⟨outer, lies, older, inside⟩
    · rw [chain_of_none layered.outermost]
      exact ⟨.last layered.outermost, rfl⟩
    · obtain ⟨outwards, ends⟩ := ih outer older inside
      obtain ⟨path, same⟩ : ∃ path, s.chain outer = outer :: path := by
        rw [chain]
        exact ⟨_, rfl⟩
      rw [chain_of_lt lies older]
      rw [same] at outwards ends ⊢
      exact ⟨.next lies outwards, ends⟩

/-- What a scope lies in does not change. -/
theorem Edit.outer? (edit : Edit region s s') (has : s.Has (.scope id)) : s'.outer? id = s.outer? id := by
  cases edit with
  | @newScope outer _ =>
    have other : id ≠ s.scopes.size := Nat.ne_of_lt has
    simp [Store.outer?, Store.newScope, Array.getElem?_push, other]
  | @define changed name v _ _ =>
    by_cases same : changed = id
    · cases there : s.scopes[id]? with
      | none => simp [Store.outer?, Store.define, Array.getElem?_modify, same, there]
      | some scope => simp [Store.outer?, Store.define, Array.getElem?_modify, same, there]
    · simp [Store.outer?, Store.define, Array.getElem?_modify, same]
  | _ => rfl

/-- A scope has been there, or it is a new one in one that has been there. -/
theorem Edit.scope_cases (edit : Edit region s s') (has : s'.Has (.scope id)) :
    s.Has (.scope id) ∨ ∃ outer, s'.outer? id = some outer ∧ outer < id ∧ s.Within region (.scope outer) := by
  cases edit with
  | @newScope outer within =>
    have has : id < s.scopes.size + 1 := by simpa [Has, Store.newScope] using has
    rcases Nat.lt_succ_iff_lt_or_eq.1 has with old | rfl
    · exact .inl old
    · exact .inr ⟨outer, by simp [Store.outer?, Store.newScope], within.2, within⟩
  | define _ _ => exact .inl (by simpa [Has, Store.define] using has)
  | newArray _ => exact .inl has
  | newObject _ => exact .inl has
  | newClosure _ => exact .inl has
  | append _ _ => exact .inl has

theorem Edit.layered (edit : Edit region s s') (there : s.Has (.scope globals)) (layered : s.Layered region globals) :
    s'.Layered region globals where
  outermost := (edit.outer? there).trans layered.outermost
  outer id within := by
    rcases edit.scope_cases within.2 with old | ⟨outer, lies, older, inside⟩
    · rcases layered.outer id ⟨within.1, old⟩ with same | ⟨outer, lies, older, inside⟩
      · exact .inl same
      · exact .inr ⟨outer, (edit.outer? old).trans lies, older, inside.mono edit.has⟩
    · exact .inr ⟨outer, lies, older, inside.mono edit.has⟩

/-- Edits leave the scopes of a region layered. -/
theorem Edits.layered (edits : Edits region s s') (there : s.Has (.scope globals))
    (layered : s.Layered region globals) : s'.Layered region globals := by
  induction edits with
  | refl => exact layered
  | tail before edit ih => exact edit.layered (Edits.has before _ there) ih

/-- Every scope lies in an older one or in none, and every closure has been made in a scope that is there. -/
structure Placed (s : Store) : Prop where
  older : ∀ id outer, s.outer? id = some outer → outer < id
  closures : ∀ (id : ClosureId) (c : Closure), s.closures[id]? = some c → s.Has (.scope c.scope)

theorem placed_empty : empty.Placed where
  older _ _ lies := by cases lies
  closures _ _ found := by cases found

theorem has_of_outer? {outer : ScopeId} (lies : s.outer? id = some outer) : s.Has (.scope id) := by
  obtain ⟨scope, found, _⟩ := Option.bind_eq_some_iff.1 lies
  exact (Array.getElem?_eq_some_iff.1 found).1

theorem Edit.placed (edit : Edit region s s') (placed : s.Placed) : s'.Placed where
  older id outer lies := by
    rcases edit.scope_cases (has_of_outer? lies) with old | ⟨outer', lies', older, _⟩
    · exact placed.older id outer ((edit.outer? old).symm.trans lies)
    · rw [lies'] at lies
      cases lies
      exact older
  closures id c found := by
    have has := edit.has (.scope c.scope)
    cases edit with
    | @newClosure literal scope within =>
      rw [Store.newClosure, Array.getElem?_push] at found
      split at found
      · cases found
        exact within.2
      · exact placed.closures id c found
    | _ => exact has (placed.closures id c found)

/-- Edits leave scopes and closures in their places. -/
theorem Edits.placed (edits : Edits region s s') (placed : s.Placed) : s'.Placed := by
  induction edits with
  | refl => exact placed
  | tail _ edit ih => exact edit.placed ih

/-- A scope lies in another one and binds some names. -/
structure Lies (s : Store) (id outer : ScopeId) (bindings : Table Value) : Prop where
  has : s.Has (.scope id)
  outer : s.outer? id = some outer
  bindings : s.bindings id = bindings

theorem newScope_lies (s : Store) (outer : ScopeId) : (s.newScope (some outer)).2.Lies s.scopes.size outer .empty :=
  ⟨by simp [newScope, Has], by simp [newScope, Store.outer?], by simp [newScope, Store.bindings]⟩

theorem Lies.define {outer : ScopeId} {bindings : Table Value} (lies : s.Lies id outer bindings) (name : Text)
    (v : Value) : (s.define id name v).Lies id outer (bindings.insert name v) := by
  obtain ⟨has, out, rfl⟩ := lies
  obtain ⟨scope, there⟩ : ∃ scope, s.scopes[id]? = some scope := ⟨_, Array.getElem?_eq_getElem has⟩
  refine ⟨by simpa [Has, Store.define] using has, ?_, ?_⟩
  · rw [← out]
    simp [Store.outer?, Store.define, Array.getElem?_modify, there]
  · simp [Store.bindings, Store.define, Array.getElem?_modify, there]

theorem Lies.newClosure {outer : ScopeId} {bindings : Table Value} (lies : s.Lies id outer bindings)
    (literal : FunctionLiteral) (scope : ScopeId) : (s.newClosure literal scope).2.Lies id outer bindings :=
  ⟨lies.has, lies.outer, lies.bindings⟩

end TinyScript.Store
