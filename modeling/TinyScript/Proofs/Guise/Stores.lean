import TinyScript.Proofs.Guise.Trees
import TinyScript.Proofs.Store.Moved

namespace TinyScript

variable {α β : Type}

/-- On top of the older things there stands one for each of the others, in order. -/
structure Stacked (R : α → β → Prop) (older : Array β) (xs : Array α) (ys : Array β) : Prop where
  size : ys.size = older.size + xs.size
  get : ∀ i, Option.Rel R xs[i]? ys[older.size + i]?

theorem rel_iff_eq_map {f : α → β} {a : Option α} {b : Option β} :
    Option.Rel (fun a b => b = f a) a b ↔ b = a.map f := by
  cases a <;> cases b <;> simp [Option.rel_some_some, Option.rel_none_none]

theorem rel_imp {R S : α → β → Prop} {a : Option α} {b : Option β} (related : Option.Rel R a b)
    (imp : ∀ a b, R a b → S a b) : Option.Rel S a b := by
  cases related with
  | some related => exact .some (imp _ _ related)
  | none => exact .none

theorem exists_of_rel_left {R : α → β → Prop} {a : α} {o : Option β} (related : Option.Rel R (some a) o) :
    ∃ b, o = some b ∧ R a b := by
  obtain ⟨related⟩ := related
  exact ⟨_, rfl, related⟩

theorem exists_of_rel_right {R : α → β → Prop} {b : β} {o : Option α} (related : Option.Rel R o (some b)) :
    ∃ a, o = some a ∧ R a b := by
  obtain ⟨related⟩ := related
  exact ⟨_, rfl, related⟩

namespace Stacked

variable {R : α → β → Prop} {older : Array β} {xs : Array α} {ys : Array β} {a : α} {b : β}

theorem push (stacked : Stacked R older xs ys) (related : R a b) : Stacked R older (xs.push a) (ys.push b) where
  size := by rw [Array.size_push, Array.size_push, stacked.size, Nat.add_assoc]
  get i := by
    have same : older.size + i = ys.size ↔ i = xs.size := by
      rw [stacked.size]
      omega
    rw [Array.getElem?_push, Array.getElem?_push]
    by_cases last : i = xs.size
    · rw [if_pos last, if_pos (same.2 last)]
      exact .some related
    · rw [if_neg last, if_neg fun equal => last (same.1 equal)]
      exact stacked.get i

theorem modify (stacked : Stacked R older xs ys) (i : Nat) {f : α → α} {f' : β → β}
    (related : ∀ a b, R a b → R (f a) (f' b)) : Stacked R older (xs.modify i f) (ys.modify (older.size + i) f') where
  size := by rw [Array.size_modify, Array.size_modify, stacked.size]
  get j := by
    have same : older.size + i = older.size + j ↔ i = j := Nat.add_left_cancel_iff
    rw [Array.getElem?_modify, Array.getElem?_modify]
    by_cases here : i = j
    · rw [if_pos here, if_pos (same.2 here)]
      have found := stacked.get j
      revert found
      generalize xs[j]? = x
      generalize ys[older.size + j]? = y
      rintro (⟨found⟩ | _)
      · exact .some (related _ _ found)
      · exact .none
    · rw [if_neg here, if_neg fun equal => here (same.1 equal)]
      exact stacked.get j

end Stacked

namespace Guise

variable (g : Guise)

/-- The place of an array in the other store. -/
def array (id : ArrayId) : ArrayId := g.older.arrays.size + id

def object (id : ObjectId) : ObjectId := g.older.objects.size + id

def closure (id : ClosureId) : ClosureId := g.older.closures.size + id

def scope (id : ScopeId) : ScopeId := g.older.scopes.size + id

/-- The same value in the other store. -/
def value : Value → Value
  | .array id => .array (g.array id)
  | .object id => .object (g.object id)
  | .closure id => .closure (g.closure id)
  | v => v

/-- The same is bound, to names that stand for each other. -/
def Bindings (t t' : Table Value) : Prop := ∀ a b, g.name a b → t'.get? b = (t.get? a).map g.value

/-- The same is held under the same keys. -/
def Entries (t t' : Table Value) : Prop := t'.entries = t.entries.map fun e => (e.1, g.value e.2)

structure Scopes (a b : Scope) : Prop where
  bindings : g.Bindings a.bindings b.bindings
  outer : b.outer = a.outer.map g.scope

structure Closures (c d : Closure) : Prop where
  literal : g.Like (.function c.literal) (.function d.literal)
  scope : d.scope = g.scope c.scope

/-- The same store in another guise. -/
structure Stores (s s' : Store) : Prop where
  arrays : Stacked (fun a b => b = a.map g.value) g.older.arrays s.arrays s'.arrays
  objects : Stacked g.Entries g.older.objects s.objects s'.objects
  closures : Stacked g.Closures g.older.closures s.closures s'.closures
  scopes : Stacked g.Scopes g.older.scopes s.scopes s'.scopes
  created : s'.created = g.older.created ++ s.created.map g.array
  captured : s'.captured = g.older.captured ++ s.captured.map g.scope

/-- The places of shared values in the other store. -/
def move : Move where
  array := g.array
  object := g.object
  closure := g.closure
  array_injective _ _ := Nat.add_left_cancel
  object_injective _ _ := Nat.add_left_cancel
  closure_injective _ _ := Nat.add_left_cancel

theorem value_eq_move (v : Value) : g.value v = g.move.value v := by cases v <;> rfl

variable {g} {s s' : Store} {t t' : Table Value} {a b : Text}

@[simp] theorem kind_value (v : Value) : (g.value v).kind = v.kind := by rw [value_eq_move, Move.kind_value]

@[simp] theorem truthy_value (v : Value) : (g.value v).truthy = v.truthy := by rw [value_eq_move, Move.truthy_value]

theorem Bindings.insert (like : g.Bindings t t') (same : g.name a b) (v : Value) :
    g.Bindings (t.insert a v) (t'.insert b (g.value v)) := by
  intro c d other
  rw [Table.get?_insert, Table.get?_insert, like c d other]
  by_cases here : c = a
  · rw [if_pos here, if_pos ((g.name_unique other same).1 here)]
    rfl
  · rw [if_neg here, if_neg fun equal => here ((g.name_unique other same).2 equal)]

theorem Bindings.empty : g.Bindings .empty .empty := fun _ _ _ => rfl

theorem Scopes.define {c d : Scope} (like : g.Scopes c d) (same : g.name a b) (v : Value) :
    g.Scopes { c with bindings := c.bindings.insert a v } { d with bindings := d.bindings.insert b (g.value v) } :=
  ⟨like.bindings.insert same v, like.outer⟩

namespace Stores

theorem elements (like : g.Stores s s') (id : ArrayId) :
    s'.elements (g.array id) = (s.elements id).map g.value := by
  have same := rel_iff_eq_map.1 (like.arrays.get id)
  unfold Store.elements array
  rw [same]
  cases s.arrays[id]? <;> simp

theorem entries (like : g.Stores s s') (id : ObjectId) : g.Entries (s.entries id) (s'.entries (g.object id)) := by
  have same := like.objects.get id
  unfold Store.entries object
  revert same
  generalize s.objects[id]? = o
  generalize s'.objects[g.older.objects.size + id]? = o'
  rintro (⟨same⟩ | _)
  · exact same
  · rfl

theorem bindings (like : g.Stores s s') (id : ScopeId) : g.Bindings (s.bindings id) (s'.bindings (g.scope id)) := by
  have same := like.scopes.get id
  unfold Store.bindings scope
  revert same
  generalize s.scopes[id]? = c
  generalize s'.scopes[g.older.scopes.size + id]? = c'
  rintro (⟨same⟩ | _)
  · exact same.bindings
  · exact .empty

theorem outer? (like : g.Stores s s') (id : ScopeId) : s'.outer? (g.scope id) = (s.outer? id).map g.scope := by
  have same := like.scopes.get id
  unfold Store.outer? scope
  revert same
  generalize s.scopes[id]? = c
  generalize s'.scopes[g.older.scopes.size + id]? = c'
  rintro (⟨same⟩ | _)
  · exact same.outer
  · rfl

theorem chain (like : g.Stores s s') (id : ScopeId) : s'.chain (g.scope id) = (s.chain id).map g.scope := by
  induction id using Nat.strongRecOn with
  | ind id ih =>
    rw [Store.chain, like.outer? id]
    conv_rhs => rw [Store.chain]
    cases found : s.outer? id with
    | none => rfl
    | some outer =>
      have less : g.scope outer < g.scope id ↔ outer < id := Nat.add_lt_add_iff_left
      by_cases inner : outer < id
      · simp only [Option.map_some, if_pos inner, if_pos (less.2 inner), ih outer inner, List.map_cons]
      · simp only [Option.map_some, if_neg inner, if_neg fun other => inner (less.1 other), List.map_cons, List.map_nil]

theorem lookup (like : g.Stores s s') (same : g.name a b) (id : ScopeId) :
    s'.lookup (g.scope id) b = (s.lookup id a).map g.value := by
  unfold Store.lookup
  rw [like.chain id]
  induction s.chain id with
  | nil => rfl
  | cons id ids ih =>
    rw [List.map_cons, List.findSome?_cons, List.findSome?_cons, like.bindings id a b same]
    cases (s.bindings id).get? a with
    | none => exact ih
    | some v => rfl

theorem binder? (like : g.Stores s s') (same : g.name a b) (id : ScopeId) :
    s'.binder? (g.scope id) b = (s.binder? id a).map g.scope := by
  unfold Store.binder?
  rw [like.chain id]
  induction s.chain id with
  | nil => rfl
  | cons id ids ih =>
    have bound : (s'.bindings (g.scope id)).contains b = (s.bindings id).contains a := by
      rw [Table.contains, Table.contains, like.bindings id a b same, Option.isSome_map]
    rw [List.map_cons, List.find?_cons, List.find?_cons, bound]
    cases (s.bindings id).contains a with
    | true => rfl
    | false => exact ih

theorem functionText (like : g.Stores s s') (id : ClosureId) : s'.functionText (g.closure id) = s.functionText id := by
  have same := like.closures.get id
  unfold Store.functionText closure
  revert same
  generalize s.closures[id]? = c
  generalize s'.closures[g.older.closures.size + id]? = c'
  rintro (⟨same⟩ | _)
  · rw [Option.map_some, Option.map_some, same.literal.function_name]
  · rfl

theorem reads (like : g.Stores s s') : g.move.Reads s s' where
  elements id := (like.elements id).trans (congrArg (Array.map · _) (funext g.value_eq_move))
  entries id := (Table.eq_map_of_entries (like.entries id)).trans (congrArg (Table.map · _) (funext g.value_eq_move))
  functionText := like.functionText
  aggregateCount := by
    unfold Store.aggregateCount
    rw [like.arrays.size, like.objects.size]
    omega

theorem display (like : g.Stores s s') (v : Value) : s'.display (g.value v) = s.display v := by
  rw [value_eq_move, like.reads.display]

theorem inspect (like : g.Stores s s') (v : Value) : s'.inspect (g.value v) = s.inspect v := by
  rw [value_eq_move, like.reads.inspect]

theorem packed (like : g.Stores s s') (v : Value) : s'.packed (g.value v) = s.packed v := by
  rw [value_eq_move, like.reads.packed]

/-- Where names stand for themselves the same names are listed with the same values. -/
theorem dump (like : g.Stores s s') (names : ∀ a, g.name a a) (id : ScopeId) : s'.dump (g.scope id) = s.dump id := by
  have bindings : s'.bindings (g.scope id) = (s.bindings id).map g.value :=
    Table.eq_of_get? fun a => (like.bindings id a a (names a)).trans (Table.get?_map _ a).symm
  rw [Store.dump, Store.dump, bindings, Table.map, List.flatMap_map]
  exact congrArg (List.flatMap · _) (funext fun e => by rw [like.inspect])

theorem newArray (like : g.Stores s s') (elements : Array Value) :
    (s'.newArray (elements.map g.value)).1 = g.array (s.newArray elements).1 ∧
      g.Stores (s.newArray elements).2 (s'.newArray (elements.map g.value)).2 := by
  have id : s'.arrays.size = g.array s.arrays.size := like.arrays.size
  refine ⟨id, like.arrays.push rfl, like.objects, like.closures, like.scopes, ?_, like.captured⟩
  show s'.created.push s'.arrays.size = g.older.created ++ (s.created.push s.arrays.size).map g.array
  rw [id, like.created, Array.map_push, Array.append_push]

theorem newObject (like : g.Stores s s') (same : g.Entries t t') :
    (s'.newObject t').1 = g.object (s.newObject t).1 ∧ g.Stores (s.newObject t).2 (s'.newObject t').2 :=
  ⟨like.objects.size, like.arrays, like.objects.push same, like.closures, like.scopes, like.created, like.captured⟩

theorem newClosure (like : g.Stores s s') {f f' : FunctionLiteral} (same : g.Like (.function f) (.function f'))
    (scope : ScopeId) :
    (s'.newClosure f' (g.scope scope)).1 = g.closure (s.newClosure f scope).1 ∧
      g.Stores (s.newClosure f scope).2 (s'.newClosure f' (g.scope scope)).2 := by
  refine ⟨like.closures.size, like.arrays, like.objects, like.closures.push ⟨same, rfl⟩, like.scopes, like.created, ?_⟩
  show s'.captured.push (g.scope scope) = g.older.captured ++ (s.captured.push scope).map g.scope
  rw [like.captured, Array.map_push, Array.append_push]

theorem newScope (like : g.Stores s s') (outer : Option ScopeId) :
    (s'.newScope (outer.map g.scope)).1 = g.scope (s.newScope outer).1 ∧
      g.Stores (s.newScope outer).2 (s'.newScope (outer.map g.scope)).2 :=
  ⟨like.scopes.size, like.arrays, like.objects, like.closures, like.scopes.push ⟨.empty, rfl⟩, like.created,
    like.captured⟩

theorem append (like : g.Stores s s') (id : ArrayId) (v : Value) :
    g.Stores (s.append id v) (s'.append (g.array id) (g.value v)) := by
  have grown : ∀ a b : Array Value, b = a.map g.value → b.push (g.value v) = (a.push v).map g.value := by
    rintro elements _ rfl
    exact Array.map_push.symm
  exact ⟨like.arrays.modify id grown, like.objects, like.closures, like.scopes, like.created, like.captured⟩

theorem define (like : g.Stores s s') (same : g.name a b) (id : ScopeId) (v : Value) :
    g.Stores (s.define id a v) (s'.define (g.scope id) b (g.value v)) :=
  ⟨like.arrays, like.objects, like.closures, like.scopes.modify id fun _ _ scopes => scopes.define same v,
    like.created, like.captured⟩

end Stores

end Guise

end TinyScript
