import Mathlib.Logic.Relation
import TinyScript.Store.Graph

namespace TinyScript

theorem Table.mem_values_of_get? {α : Type} {t : Table α} {key : Text} {a : α} (found : t.get? key = some a) :
    a ∈ t.values := by
  obtain ⟨before, after, same, _⟩ := List.lookup_eq_some_iff.1 found
  exact List.mem_map.2 ⟨(key, a), by simp [same], rfl⟩

theorem Table.mem_values_insert {α : Type} {t : Table α} {key : Text} {a b : α} (mem : b ∈ (t.insert key a).values) :
    b = a ∨ b ∈ t.values := by
  obtain ⟨entry, inserted, rfl⟩ := List.mem_map.1 mem
  rcases mem_insertEntry inserted with rfl | old
  · exact .inl rfl
  · exact .inr (List.mem_map.2 ⟨entry, old, rfl⟩)

namespace Store

/-- There is something at the node. -/
def Has (s : Store) : Node → Prop
  | .array id => id < s.arrays.size
  | .object id => id < s.objects.size
  | .closure id => id < s.closures.size
  | .scope id => id < s.scopes.size

theorem has_mono {s s' : Store} (arrays : s.arrays.size ≤ s'.arrays.size)
    (objects : s.objects.size ≤ s'.objects.size)
    (closures : s.closures.size ≤ s'.closures.size) (scopes : s.scopes.size ≤ s'.scopes.size) (n : Node)
    (has : s.Has n) : s'.Has n := by
  cases n with
  | array id => exact Nat.lt_of_lt_of_le has arrays
  | object id => exact Nat.lt_of_lt_of_le has objects
  | closure id => exact Nat.lt_of_lt_of_le has closures
  | scope id => exact Nat.lt_of_lt_of_le has scopes

/-- Where there is nothing, there are no references. -/
theorem edges_eq_nil {s : Store} {n : Node} (missing : ¬ s.Has n) : s.edges n = [] := by
  cases n with
  | array id => simp [edges, held, elements, Array.getElem?_eq_none (Nat.not_lt.1 missing)]
  | object id => simp [edges, held, entries, Array.getElem?_eq_none (Nat.not_lt.1 missing),
      Table.values, Table.empty]
  | closure id => simp [edges, Array.getElem?_eq_none (Nat.not_lt.1 missing)]
  | scope id =>
    simp [edges, bindings, outer?, Array.getElem?_eq_none (Nat.not_lt.1 missing), Table.values, Table.empty]

/-- The second store has everything that the first one has, and what is outside of a region is the same. The
arrays that are new are kept in mind, and none is forgotten. -/
structure Grows (region : Node → Prop) (s s' : Store) : Prop where
  has : ∀ n, s.Has n → s'.Has n
  edges_eq : ∀ n, ¬ region n → s'.edges n = s.edges n
  held_eq : ∀ n, ¬ region n → s'.held n = s.held n
  remembers : ∀ id ∈ s.created, id ∈ s'.created
  tracks : ∀ id, ¬ s.Has (.array id) → s'.Has (.array id) → id ∈ s'.created

variable {region : Node → Prop} {s s' s'' : Store} {v : Value}

theorem Grows.refl (region : Node → Prop) (s : Store) : Grows region s s :=
  ⟨fun _ has => has, fun _ _ => rfl, fun _ _ => rfl, fun _ mem => mem, fun _ missing has => absurd has missing⟩

theorem Grows.trans (first : Grows region s s') (second : Grows region s' s'') : Grows region s s'' where
  has n has := second.has n (first.has n has)
  edges_eq n outside := (second.edges_eq n outside).trans (first.edges_eq n outside)
  held_eq n outside := (second.held_eq n outside).trans (first.held_eq n outside)
  remembers id mem := second.remembers id (first.remembers id mem)
  tracks id missing has := by
    by_cases between : s'.Has (.array id)
    · exact second.remembers id (first.tracks id missing between)
    · exact second.tracks id between has

/-- A store in which a program can run inside of a region. Objects refer only to objects that are older. -/
structure Healthy (region : Node → Prop) (s : Store) : Prop where
  closed : ∀ n m, region n → m ∈ s.edges n → region m
  has : ∀ n m, m ∈ s.edges n → s.Has m
  older : ∀ i j, Node.object j ∈ s.edges (.object i) → j < i
  fresh : ∀ n, ¬ s.Has n → region n

/-- A node that a program in the region can refer to. -/
def Within (region : Node → Prop) (s : Store) (n : Node) : Prop := region n ∧ s.Has n

/-- A value that a program in the region can have. -/
def Fits (region : Node → Prop) (s : Store) (v : Value) : Prop := ∀ n, v.node? = some n → s.Within region n

theorem Within.mono {n : Node} (within : s.Within region n) (has : ∀ n, s.Has n → s'.Has n) : s'.Within region n :=
  ⟨within.1, has n within.2⟩

theorem Fits.mono (fits : s.Fits region v) (has : ∀ n, s.Has n → s'.Has n) : s'.Fits region v :=
  fun n node => (fits n node).mono has

theorem Fits.of_node?_eq_none (none : v.node? = none) : s.Fits region v := fun n node => by
  rw [none] at node
  cases node

/-- Only one node has changed, and only values that fit have been added to it. -/
structure Changes (region : Node → Prop) (s s' : Store) (changed : Node) : Prop where
  inside : region changed
  has : ∀ n, s.Has n → s'.Has n
  edges_eq : ∀ n, n ≠ changed → s'.edges n = s.edges n
  held_eq : ∀ n, n ≠ changed → s'.held n = s.held n
  added : ∀ m ∈ s'.edges changed, m ∈ s.edges changed ∨ s.Within region m
  older : ∀ i, changed = .object i → ∀ j, Node.object j ∈ s'.edges (.object i) → j < i

theorem Changes.healthy {changed : Node} (changes : Changes region s s' changed) (healthy : s.Healthy region) :
    s'.Healthy region where
  closed n m inside edge := by
    by_cases same : n = changed
    · subst same
      rcases changes.added m edge with old | new
      · exact healthy.closed n m inside old
      · exact new.1
    · rw [changes.edges_eq n same] at edge
      exact healthy.closed n m inside edge
  has n m edge := by
    by_cases same : n = changed
    · subst same
      rcases changes.added m edge with old | new
      · exact changes.has m (healthy.has n m old)
      · exact changes.has m new.2
    · rw [changes.edges_eq n same] at edge
      exact changes.has m (healthy.has n m edge)
  older i j edge := by
    by_cases same : changed = .object i
    · exact changes.older i same j edge
    · rw [changes.edges_eq _ (Ne.symm same)] at edge
      exact healthy.older i j edge
  fresh n missing := healthy.fresh n fun has => missing (changes.has n has)

theorem Changes.grows {changed : Node} (changes : Changes region s s' changed)
    (arrays : s'.arrays.size = s.arrays.size) (created : s'.created = s.created) : Grows region s s' where
  has := changes.has
  edges_eq n outside := changes.edges_eq n fun same => outside (same ▸ changes.inside)
  held_eq n outside := changes.held_eq n fun same => outside (same ▸ changes.inside)
  remembers _ mem := created ▸ mem
  tracks id missing has := absurd (arrays ▸ has : id < s.arrays.size) missing

theorem Fits.of_mem {values : List Value} {m : Node} (fits : ∀ v ∈ values, s.Fits region v)
    (mem : m ∈ values.filterMap Value.node?) : s.Within region m := by
  obtain ⟨v, mem, node⟩ := List.mem_filterMap.1 mem
  exact fits v mem m node

theorem newArray_changes (healthy : s.Healthy region) {elements : Array Value}
    (fits : ∀ v ∈ elements.toList, s.Fits region v) :
    Changes region s (s.newArray elements).2 (.array s.arrays.size) where
  inside := healthy.fresh _ (Nat.lt_irrefl _)
  has := has_mono (by simp [newArray]) (by simp [newArray]) (by simp [newArray]) (by simp [newArray])
  edges_eq n other := by
    cases n with
    | array id =>
      have other : id ≠ s.arrays.size := fun same => other (same ▸ rfl)
      simp [newArray, edges, held, Store.elements, Array.getElem?_push, other]
    | _ => rfl
  held_eq n other := by
    cases n with
    | array id =>
      have other : id ≠ s.arrays.size := fun same => other (same ▸ rfl)
      simp [newArray, held, Store.elements, Array.getElem?_push, other]
    | _ => rfl
  added m edge := by
    refine .inr (Fits.of_mem fits ?_)
    simpa [newArray, edges, held, Store.elements] using edge
  older i same := by cases same

/-- A new array is kept in mind. -/
theorem newArray_grows (healthy : s.Healthy region) {elements : Array Value}
    (fits : ∀ v ∈ elements.toList, s.Fits region v) : Grows region s (s.newArray elements).2 where
  has := (newArray_changes healthy fits).has
  edges_eq n outside := (newArray_changes healthy fits).edges_eq n fun same =>
    outside (same ▸ healthy.fresh _ (Nat.lt_irrefl _))
  held_eq n outside := (newArray_changes healthy fits).held_eq n fun same =>
    outside (same ▸ healthy.fresh _ (Nat.lt_irrefl _))
  remembers id mem := Array.mem_push_of_mem _ mem
  tracks id missing has := by
    have same : id = s.arrays.size := by
      have missing : ¬ id < s.arrays.size := missing
      have has : id < s.arrays.size + 1 := by simpa [newArray, Has] using has
      exact Nat.le_antisymm (Nat.lt_succ_iff.1 has) (Nat.not_lt.1 missing)
    exact same ▸ Array.mem_push_self

theorem newArray_fits (healthy : s.Healthy region) (elements : Array Value) :
    (s.newArray elements).2.Fits region (.array (s.newArray elements).1) := by
  rintro n ⟨⟩
  refine ⟨healthy.fresh _ (Nat.lt_irrefl _), ?_⟩
  simp [newArray, Has]

theorem newObject_changes (healthy : s.Healthy region) {entries : Table Value}
    (fits : ∀ v ∈ entries.values, s.Fits region v) :
    Changes region s (s.newObject entries).2 (.object s.objects.size) where
  inside := healthy.fresh _ (Nat.lt_irrefl _)
  has := has_mono (by simp [newObject]) (by simp [newObject]) (by simp [newObject]) (by simp [newObject])
  edges_eq n other := by
    cases n with
    | object id =>
      have other : id ≠ s.objects.size := fun same => other (same ▸ rfl)
      simp [newObject, edges, held, Store.entries, Array.getElem?_push, other]
    | _ => rfl
  held_eq n other := by
    cases n with
    | object id =>
      have other : id ≠ s.objects.size := fun same => other (same ▸ rfl)
      simp [newObject, held, Store.entries, Array.getElem?_push, other]
    | _ => rfl
  added m edge := by
    refine .inr (Fits.of_mem fits ?_)
    simpa [newObject, edges, held, Store.entries] using edge
  older i same j edge := by
    cases same
    have edge : Node.object j ∈ entries.values.filterMap Value.node? := by
      simpa [newObject, edges, held, Store.entries] using edge
    exact (Fits.of_mem fits edge).2

theorem newObject_fits (healthy : s.Healthy region) (entries : Table Value) :
    (s.newObject entries).2.Fits region (.object (s.newObject entries).1) := by
  rintro n ⟨⟩
  refine ⟨healthy.fresh _ (Nat.lt_irrefl _), ?_⟩
  simp [newObject, Has]

theorem newClosure_changes (healthy : s.Healthy region) (literal : FunctionLiteral) {scope : ScopeId}
    (within : s.Within region (.scope scope)) :
    Changes region s (s.newClosure literal scope).2 (.closure s.closures.size) where
  inside := healthy.fresh _ (Nat.lt_irrefl _)
  has := has_mono (by simp [newClosure]) (by simp [newClosure]) (by simp [newClosure]) (by simp [newClosure])
  edges_eq n other := by
    cases n with
    | closure id =>
      have other : id ≠ s.closures.size := fun same => other (same ▸ rfl)
      simp [newClosure, edges, Array.getElem?_push, other]
    | _ => rfl
  held_eq n other := by cases n <;> rfl
  added m edge := by
    have same : m = .scope scope := by simpa [newClosure, edges] using edge
    exact .inr (same ▸ within)
  older i same := by cases same

theorem newClosure_fits (healthy : s.Healthy region) (literal : FunctionLiteral) (scope : ScopeId) :
    (s.newClosure literal scope).2.Fits region (.closure (s.newClosure literal scope).1) := by
  rintro n ⟨⟩
  refine ⟨healthy.fresh _ (Nat.lt_irrefl _), ?_⟩
  simp [newClosure, Has]

theorem newScope_changes (healthy : s.Healthy region) (outer : Option ScopeId)
    (fits : ∀ id, outer = some id → s.Within region (.scope id)) :
    Changes region s (s.newScope outer).2 (.scope s.scopes.size) where
  inside := healthy.fresh _ (Nat.lt_irrefl _)
  has := has_mono (by simp [newScope]) (by simp [newScope]) (by simp [newScope]) (by simp [newScope])
  edges_eq n other := by
    cases n with
    | scope id =>
      have other : id ≠ s.scopes.size := fun same => other (same ▸ rfl)
      simp [newScope, edges, bindings, outer?, Array.getElem?_push, other]
    | _ => rfl
  held_eq n other := by cases n <;> rfl
  added m edge := by
    have edge : ∃ id, outer = some id ∧ Node.scope id = m := by
      simpa [newScope, edges, bindings, outer?, Table.values, Table.empty] using edge
    obtain ⟨id, same, rfl⟩ := edge
    exact .inr (fits id same)
  older i same := by cases same

theorem newScope_within (healthy : s.Healthy region) (outer : Option ScopeId) :
    (s.newScope outer).2.Within region (.scope (s.newScope outer).1) := by
  refine ⟨healthy.fresh _ (Nat.lt_irrefl _), ?_⟩
  simp [newScope, Has]

theorem append_changes {id : ArrayId} (inside : region (.array id))
    (fits : s.Fits region v) : Changes region s (s.append id v) (.array id) where
  inside := inside
  has := has_mono (by simp [append]) (by simp [append]) (by simp [append]) (by simp [append])
  edges_eq n other := by
    cases n with
    | array k =>
      have other : id ≠ k := fun same => other (same ▸ rfl)
      simp [append, edges, held, Store.elements, Array.getElem?_modify, other]
    | _ => rfl
  held_eq n other := by
    cases n with
    | array k =>
      have other : id ≠ k := fun same => other (same ▸ rfl)
      simp [append, held, Store.elements, Array.getElem?_modify, other]
    | _ => rfl
  added m edge := by
    cases there : s.arrays[id]? with
    | none =>
      simp [append, edges, held, Store.elements, Array.getElem?_modify, there] at edge
    | some elements =>
      have edge : m ∈ (elements.toList ++ [v]).filterMap Value.node? := by
        simpa [append, edges, held, Store.elements, Array.getElem?_modify, there] using edge
      rw [List.filterMap_append] at edge
      rcases List.mem_append.1 edge with old | new
      · refine .inl ?_
        simpa [edges, held, Store.elements, there] using old
      · exact .inr (Fits.of_mem (by simpa using fits) new)
  older i same := by cases same

theorem define_changes {id : ScopeId} (inside : region (.scope id)) (name : Text)
    (fits : s.Fits region v) : Changes region s (s.define id name v) (.scope id) where
  inside := inside
  has := has_mono (by simp [define]) (by simp [define]) (by simp [define]) (by simp [define])
  edges_eq n other := by
    cases n with
    | scope k =>
      have other : id ≠ k := fun same => other (same ▸ rfl)
      simp [define, edges, bindings, outer?, Array.getElem?_modify, other]
    | _ => rfl
  held_eq n other := by cases n <;> rfl
  added m edge := by
    cases there : s.scopes[id]? with
    | none =>
      simp [define, edges, bindings, outer?, Array.getElem?_modify, there, Table.values, Table.empty] at edge
    | some scope =>
      have edge : m ∈ (scope.bindings.insert name v).values.filterMap Value.node? ∨
          m ∈ (scope.outer.map Node.scope).toList := by
        simpa [define, edges, bindings, outer?, Array.getElem?_modify, there] using edge
      have old (edge : m ∈ scope.bindings.values.filterMap Value.node? ∨ m ∈ (scope.outer.map Node.scope).toList) :
          m ∈ s.edges (.scope id) := by
        simpa [edges, bindings, outer?, there] using edge
      rcases edge with edge | edge
      · obtain ⟨w, mem, node⟩ := List.mem_filterMap.1 edge
        rcases Table.mem_values_insert mem with rfl | mem
        · exact .inr (fits m node)
        · exact .inl (old (.inl (List.mem_filterMap.2 ⟨w, mem, node⟩)))
      · exact .inl (old (.inr edge))
  older i same := by cases same

theorem elements_fits (healthy : s.Healthy region) {id : ArrayId} (inside : region (.array id))
    (mem : v ∈ (s.elements id).toList) : s.Fits region v := by
  intro n node
  have edge : n ∈ s.edges (.array id) := List.mem_filterMap.2 ⟨v, mem, node⟩
  exact ⟨healthy.closed _ n inside edge, healthy.has _ n edge⟩

theorem entries_fits (healthy : s.Healthy region) {id : ObjectId} (inside : region (.object id))
    (mem : v ∈ (s.entries id).values) : s.Fits region v := by
  intro n node
  have edge : n ∈ s.edges (.object id) := List.mem_filterMap.2 ⟨v, mem, node⟩
  exact ⟨healthy.closed _ n inside edge, healthy.has _ n edge⟩

theorem bindings_fits (healthy : s.Healthy region) {id : ScopeId} (inside : region (.scope id))
    (mem : v ∈ (s.bindings id).values) : s.Fits region v := by
  intro n node
  have edge : n ∈ s.edges (.scope id) := List.mem_append_left _ (List.mem_filterMap.2 ⟨v, mem, node⟩)
  exact ⟨healthy.closed _ n inside edge, healthy.has _ n edge⟩

/-- The scopes around a scope of the region are in the region. -/
theorem chain_inside (healthy : s.Healthy region) {id k : ScopeId} (inside : region (.scope id))
    (mem : k ∈ s.chain id) : region (.scope k) := by
  fun_induction chain s id with
  | case1 id ih =>
    rcases List.mem_cons.1 mem with rfl | mem
    · exact inside
    · split at mem
      · next outer found =>
        split at mem
        · next lower =>
          have edge : Node.scope outer ∈ s.edges (.scope id) := List.mem_append_right _ (by simp [found])
          exact ih outer lower (healthy.closed _ _ inside edge) mem
        · cases mem
      · cases mem

theorem lookup_fits (healthy : s.Healthy region) {id : ScopeId} (inside : region (.scope id)) {name : Text}
    (found : s.lookup id name = some v) : s.Fits region v := by
  obtain ⟨scope, mem, found⟩ := List.exists_of_findSome?_eq_some found
  exact bindings_fits healthy (chain_inside healthy inside mem) (Table.mem_values_of_get? found)

theorem binder?_inside (healthy : s.Healthy region) {id scope : ScopeId} (inside : region (.scope id)) {name : Text}
    (found : s.binder? id name = some scope) : region (.scope scope) :=
  chain_inside healthy inside (List.mem_of_find?_eq_some found)

end Store

end TinyScript
