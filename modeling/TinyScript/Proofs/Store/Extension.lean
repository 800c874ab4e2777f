import TinyScript.Proofs.Store.Lookup

namespace TinyScript.Store

variable {s s' s'' : Store} {id : Nat} {name : Text} {v : Value} {n : Node}

/-- What anything refers to is there. -/
def Closed (s : Store) : Prop := ∀ n m, s.Refers n m → s.Has m

/-- Everything of the first store is in the second one, in its place and unchanged. -/
structure Extends (s s' : Store) : Prop where
  arrays : s.arrays.toList <+: s'.arrays.toList
  objects : s.objects.toList <+: s'.objects.toList
  closures : s.closures.toList <+: s'.closures.toList
  scopes : s.scopes.toList <+: s'.scopes.toList

theorem getElem?_of_prefix {α : Type} {xs ys : Array α} (starts : xs.toList <+: ys.toList) {i : Nat}
    (there : i < xs.size) : ys[i]? = xs[i]? := by
  rw [Array.getElem?_eq_getElem there, ← Array.getElem?_toList]
  exact List.prefix_iff_getElem?.1 starts i there

namespace Extends

theorem refl (s : Store) : s.Extends s := ⟨List.prefix_rfl, List.prefix_rfl, List.prefix_rfl, List.prefix_rfl⟩

theorem trans (first : s.Extends s') (second : s'.Extends s'') : s.Extends s'' :=
  ⟨first.arrays.trans second.arrays, first.objects.trans second.objects, first.closures.trans second.closures,
    first.scopes.trans second.scopes⟩

theorem has (grown : s.Extends s') (has : s.Has n) : s'.Has n :=
  has_mono grown.arrays.length_le grown.objects.length_le grown.closures.length_le grown.scopes.length_le n has

theorem elements (grown : s.Extends s') (has : s.Has (.array id)) : s'.elements id = s.elements id := by
  rw [Store.elements, Store.elements, getElem?_of_prefix grown.arrays has]

theorem entries (grown : s.Extends s') (has : s.Has (.object id)) : s'.entries id = s.entries id := by
  rw [Store.entries, Store.entries, getElem?_of_prefix grown.objects has]

theorem closure (grown : s.Extends s') (has : s.Has (.closure id)) : s'.closures[id]? = s.closures[id]? :=
  getElem?_of_prefix grown.closures has

theorem bindings (grown : s.Extends s') (has : s.Has (.scope id)) : s'.bindings id = s.bindings id := by
  rw [Store.bindings, Store.bindings, getElem?_of_prefix grown.scopes has]

theorem outer? (grown : s.Extends s') (has : s.Has (.scope id)) : s'.outer? id = s.outer? id := by
  rw [Store.outer?, Store.outer?, getElem?_of_prefix grown.scopes has]

theorem chain (grown : s.Extends s') (has : s.Has (.scope id)) : s'.chain id = s.chain id := by
  induction id using Nat.strongRecOn with
  | ind id ih =>
    rw [Store.chain, Store.chain, grown.outer? has]
    cases s.outer? id with
    | none => rfl
    | some outer =>
      by_cases older : outer < id
      · simp only [if_pos older, ih outer older (Nat.lt_trans older has)]
      · simp only [if_neg older]

/-- Names that are looked up from an old scope have the values that they had. -/
theorem lookup (grown : s.Extends s') (has : s.Has (.scope id)) (name : Text) :
    s'.lookup id name = s.lookup id name := by
  unfold Store.lookup
  rw [grown.chain has]
  have same (scope : ScopeId) (mem : scope ∈ s.chain id) :
      (s'.bindings scope).get? name = (s.bindings scope).get? name := by
    rw [grown.bindings (Nat.lt_of_le_of_lt (le_of_mem_chain s mem) has)]
  rw [← List.head?_filterMap, ← List.head?_filterMap, List.filterMap_congr same]

theorem newArray (s : Store) (elements : Array Value) : s.Extends (s.newArray elements).2 where
  arrays := by simp [Store.newArray]
  objects := List.prefix_rfl
  closures := List.prefix_rfl
  scopes := List.prefix_rfl

theorem newObject (s : Store) (entries : Table Value) : s.Extends (s.newObject entries).2 where
  arrays := List.prefix_rfl
  objects := by simp [Store.newObject]
  closures := List.prefix_rfl
  scopes := List.prefix_rfl

theorem newClosure (s : Store) (literal : FunctionLiteral) (scope : ScopeId) :
    s.Extends (s.newClosure literal scope).2 where
  arrays := List.prefix_rfl
  objects := List.prefix_rfl
  closures := by simp [Store.newClosure]
  scopes := List.prefix_rfl

theorem newScope (s : Store) (outer : Option ScopeId) : s.Extends (s.newScope outer).2 where
  arrays := List.prefix_rfl
  objects := List.prefix_rfl
  closures := List.prefix_rfl
  scopes := by simp [Store.newScope]

/-- A new scope may bind names. -/
theorem define (grown : s.Extends s') (new : ¬ s.Has (.scope id)) (name : Text) (v : Value) :
    s.Extends (s'.define id name v) where
  arrays := grown.arrays
  objects := grown.objects
  closures := grown.closures
  scopes := by
    refine List.prefix_iff_getElem?.2 fun i there => ?_
    have other : ¬ id = i := fun same => new (same ▸ there)
    simpa [Store.define, List.getElem?_modify, other] using List.prefix_iff_getElem?.1 grown.scopes i there

end Extends

@[simp] theorem elements_newArray (s : Store) (elements : Array Value) :
    (s.newArray elements).2.elements (s.newArray elements).1 = elements := by
  simp [Store.newArray, Store.elements]

@[simp] theorem entries_newObject (s : Store) (entries : Table Value) :
    (s.newObject entries).2.entries (s.newObject entries).1 = entries := by
  simp [Store.newObject, Store.entries]

/-- What a value refers to is there. -/
def Knows (s : Store) (v : Value) : Prop := ∀ n, v.node? = some n → s.Has n

theorem Closed.held (closed : s.Closed) (mem : v ∈ s.held n) : s.Knows v := by
  intro m node
  refine closed n m ?_
  cases n with
  | array | object => exact List.mem_filterMap.2 ⟨v, mem, node⟩
  | closure | scope => cases mem

theorem Closed.lookup (closed : s.Closed) (found : s.lookup id name = some v) : s.Knows v := by
  obtain ⟨scope, -, found⟩ := List.exists_of_findSome?_eq_some found
  intro m node
  exact closed (.scope scope) m
    (List.mem_append_left _ (List.mem_filterMap.2 ⟨v, Table.mem_values_of_get? found, node⟩))

end TinyScript.Store
