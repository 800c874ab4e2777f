import TinyScript.Proofs.Store.Scopes
import TinyScript.Proofs.Store.Shrinking
import TinyScript.Proofs.Store.Table

namespace TinyScript.Store

variable {s s' : Store} {id outer scope : ScopeId} {name : Text} {v : Value}

theorem findSome?_eq_bind_find? {α β : Type} (f : α → Option β) (xs : List α) :
    xs.findSome? f = (xs.find? fun x => (f x).isSome).bind f := by
  induction xs with
  | nil => rfl
  | cons x xs ih =>
    rw [List.findSome?_cons, List.find?_cons]
    cases found : f x with
    | none => simpa [found] using ih
    | some b => simp [found]

/-- The value of a name is the one in the innermost scope that binds it. -/
theorem lookup_eq (s : Store) (id : ScopeId) (name : Text) :
    s.lookup id name = (s.binder? id name).bind fun scope => (s.bindings scope).get? name :=
  findSome?_eq_bind_find? _ _

theorem contains_of_binder? (found : s.binder? id name = some scope) : (s.bindings scope).contains name :=
  List.find?_some (p := fun scope => (s.bindings scope).contains name) found

theorem isSome_lookup (s : Store) (id : ScopeId) (name : Text) :
    (s.lookup id name).isSome = (s.binder? id name).isSome := by
  rw [lookup_eq]
  cases found : s.binder? id name with
  | none => rfl
  | some scope => exact contains_of_binder? found

theorem lookup_eq_none_iff : s.lookup id name = none ↔ s.binder? id name = none := by
  rw [← Option.not_isSome_iff_eq_none, ← Option.not_isSome_iff_eq_none, isSome_lookup]

theorem binder?_of_contains (binds : (s.bindings id).contains name) : s.binder? id name = some id := by
  rw [binder?, chain, List.find?_cons, binds]

theorem binder?_of_outer (free : ¬ (s.bindings id).contains name) (lies : s.outer? id = some outer)
    (older : outer < id) : s.binder? id name = s.binder? outer name := by
  rw [binder?, chain_of_lt lies older, List.find?_cons, eq_false_of_ne_true free, binder?]

theorem binder?_of_none (free : ¬ (s.bindings id).contains name) (outermost : s.outer? id = none) :
    s.binder? id name = none := by
  rw [binder?, chain_of_none outermost, List.find?_cons, eq_false_of_ne_true free, List.find?_nil]

/-- Names are bound where they were as long as the scopes that were there lie where they lay and bind the same names. -/
theorem binder?_congr (placed : s.Placed) (same : ∀ id, s.Has (.scope id) →
    (∀ name, (s'.bindings id).contains name = (s.bindings id).contains name) ∧ s'.outer? id = s.outer? id)
    (has : s.Has (.scope id)) (name : Text) : s'.binder? id name = s.binder? id name := by
  induction id using Nat.strongRecOn with
  | ind id ih =>
    obtain ⟨names, lies⟩ := same id has
    by_cases binds : (s.bindings id).contains name
    · rw [binder?_of_contains binds, binder?_of_contains ((names name).trans binds)]
    · have silent : ¬ (s'.bindings id).contains name := by rwa [names]
      cases found : s.outer? id with
      | none => rw [binder?_of_none binds found, binder?_of_none silent (lies.trans found)]
      | some outer =>
        have older := placed.older id outer found
        rw [binder?_of_outer binds found older, binder?_of_outer silent (lies.trans found) older]
        exact ih outer older (Nat.lt_trans older has)

theorem chain_congr (outer : ∀ id, s'.outer? id = s.outer? id) (id : ScopeId) : s'.chain id = s.chain id := by
  induction id using Nat.strongRecOn with
  | ind id ih =>
    rw [chain, chain, outer]
    cases s.outer? id with
    | none => rfl
    | some out =>
      dsimp only
      split
      · next older => rw [ih out older]
      · rfl

/-- One store is the other with another value for one binding. -/
structure Rewritten (s : Store) (id : ScopeId) (name : Text) (v : Value) (s' : Store) : Prop where
  bindings : ∀ other key, (s'.bindings other).get? key =
    if other = id ∧ key = name then some v else (s.bindings other).get? key
  outer : ∀ other, s'.outer? other = s.outer? other
  size : s'.scopes.size = s.scopes.size
  others : s' = { s with scopes := s'.scopes }

theorem define_rewritten (has : s.Has (.scope id)) (name : Text) (v : Value) :
    s.Rewritten id name v (s.define id name v) := by
  have there : s.scopes[id]? = some s.scopes[id] := Array.getElem?_eq_getElem has
  refine ⟨fun other key => ?_, fun other => ?_, Array.size_modify, rfl⟩
  · by_cases same : id = other
    · subst same
      simp [bindings, define, Array.getElem?_modify, there, Table.get?_insert]
    · simp [bindings, define, Array.getElem?_modify, same, Ne.symm same]
  · by_cases same : id = other
    · subst same
      simp [Store.outer?, define, Array.getElem?_modify, there]
    · simp [Store.outer?, define, Array.getElem?_modify, same]

theorem get?_newScope (s : Store) (out : Option ScopeId) (id : ScopeId) (key : Text) :
    ((s.newScope out).2.bindings id).get? key = (s.bindings id).get? key := by
  by_cases same : id = s.scopes.size
  · simp [bindings, newScope, same]
  · simp [bindings, newScope, Array.getElem?_push, same]

theorem outer?_newScope (s : Store) (out : Option ScopeId) (id : ScopeId) :
    (s.newScope out).2.outer? id = if id = s.scopes.size then out else s.outer? id := by
  by_cases same : id = s.scopes.size
  · simp [Store.outer?, newScope, same]
  · simp [Store.outer?, newScope, Array.getElem?_push, same]

theorem Placed.newScope (placed : s.Placed) {out : Option ScopeId}
    (older : ∀ outer, out = some outer → s.Has (.scope outer)) : (s.newScope out).2.Placed where
  older id outer lies := by
    rw [outer?_newScope] at lies
    split at lies
    · next new => exact new ▸ older outer lies
    · exact placed.older id outer lies
  closures id c found :=
    Nat.lt_of_lt_of_eq (Nat.lt_succ_of_lt (placed.closures id c found)) (Array.size_push _).symm

/-- One value more is found, by those who come to the changed one first. -/
theorem findSome?_update {α β : Type} [DecidableEq α] {f g : α → Option β} {a : α} {b : β} (there : g a = some b)
    (elsewhere : ∀ x, x ≠ a → g x = f x) (xs : List α) :
    xs.findSome? g = if xs.find? (fun x => (g x).isSome) = some a then some b else xs.findSome? f := by
  induction xs with
  | nil => simp
  | cons x xs ih =>
    by_cases same : x = a
    · subst same
      simp [there]
    · rw [List.findSome?_cons, List.findSome?_cons, List.find?_cons, elsewhere x same]
      cases f x with
      | none => exact ih
      | some c => simp [same]

theorem Rewritten.lookup_same (rewritten : s.Rewritten scope name v s') (id : ScopeId) :
    s'.lookup id name = if s'.binder? id name = some scope then some v else s.lookup id name := by
  have chains := chain_congr rewritten.outer id
  rw [lookup, lookup, binder?, ← chains]
  refine findSome?_update ?_ (fun other different => ?_) _
  · rw [rewritten.bindings, if_pos ⟨rfl, rfl⟩]
  · rw [rewritten.bindings, if_neg fun both => different both.1]

theorem Rewritten.lookup_other (rewritten : s.Rewritten scope name v s') (id : ScopeId) {key : Text}
    (different : key ≠ name) : s'.lookup id key = s.lookup id key := by
  rw [lookup, lookup, chain_congr rewritten.outer]
  refine congrArg (List.findSome? · _) (funext fun other => ?_)
  rw [rewritten.bindings, if_neg fun both => different both.2]

end TinyScript.Store
