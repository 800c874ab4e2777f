import TinyScript.Proofs.Store.Growth

namespace TinyScript.Store

/-- One thing that a program does to a store. What it adds refers only to what is within a region, and a new scope lies
in another one. -/
inductive Edit (region : Node → Prop) (s : Store) : Store → Prop
  | newArray {elements : Array Value} : (∀ v ∈ elements.toList, s.Fits region v) →
    Edit region s (s.newArray elements).2
  | newObject {entries : Table Value} : (∀ v ∈ entries.values, s.Fits region v) →
    Edit region s (s.newObject entries).2
  | newClosure {literal : FunctionLiteral} {scope : ScopeId} : s.Within region (.scope scope) →
    Edit region s (s.newClosure literal scope).2
  | newScope {outer : ScopeId} : s.Within region (.scope outer) → Edit region s (s.newScope (some outer)).2
  | append {id : ArrayId} {v : Value} : region (.array id) → s.Fits region v → Edit region s (s.append id v)
  | define {id : ScopeId} {name : Text} {v : Value} : region (.scope id) → s.Fits region v →
    Edit region s (s.define id name v)

/-- Edits one after the other. -/
abbrev Edits (region : Node → Prop) : Store → Store → Prop := Relation.ReflTransGen (Edit region)

variable {region : Node → Prop} {s s' s'' : Store}

theorem Edit.has (edit : Edit region s s') (n : Node) (has : s.Has n) : s'.Has n := by
  cases edit <;> refine has_mono ?_ ?_ ?_ ?_ n has <;>
    simp [Store.newArray, Store.newObject, Store.newClosure, Store.newScope, Store.append, Store.define]

theorem Edits.has (edits : Edits region s s') (n : Node) (has : s.Has n) : s'.Has n := by
  induction edits with
  | refl => exact has
  | tail _ edit ih => exact edit.has n ih

theorem Edit.healthy (edit : Edit region s s') (healthy : s.Healthy region) : s'.Healthy region := by
  cases edit with
  | newArray fits => exact (newArray_changes healthy fits).healthy healthy
  | newObject fits => exact (newObject_changes healthy fits).healthy healthy
  | newClosure within => exact (newClosure_changes healthy _ within).healthy healthy
  | newScope within =>
    exact (newScope_changes healthy _ fun _ same => Option.some.inj same ▸ within).healthy healthy
  | append inside fits => exact (append_changes inside fits).healthy healthy
  | define inside fits => exact (define_changes inside _ fits).healthy healthy

theorem Edit.grows (edit : Edit region s s') (healthy : s.Healthy region) : Grows region s s' := by
  cases edit with
  | newArray fits => exact newArray_grows healthy fits
  | newObject fits => exact (newObject_changes healthy fits).grows rfl rfl
  | newClosure within => exact (newClosure_changes healthy _ within).grows rfl rfl
  | newScope within =>
    exact (newScope_changes healthy _ fun _ same => Option.some.inj same ▸ within).grows rfl rfl
  | append inside fits => exact (append_changes inside fits).grows Array.size_modify rfl
  | define inside fits => exact (define_changes inside _ fits).grows rfl rfl

theorem Edits.healthy (edits : Edits region s s') (healthy : s.Healthy region) : s'.Healthy region := by
  induction edits with
  | refl => exact healthy
  | tail _ edit ih => exact edit.healthy ih

theorem Edits.grows (edits : Edits region s s') (healthy : s.Healthy region) : Grows region s s' := by
  induction edits with
  | refl => exact .refl region s
  | tail before edit ih => exact ih.trans (edit.grows (Edits.healthy before healthy))

/-- Arrays have only been extended at their ends. Objects and closures are as they were. -/
structure Keeps (s s' : Store) : Prop where
  has : ∀ n, s.Has n → s'.Has n
  elements : ∀ id, (s.elements id).toList <+: (s'.elements id).toList
  entries : ∀ id, s.Has (.object id) → s'.entries id = s.entries id
  closures : ∀ (id : ClosureId) (c : Closure), s.closures[id]? = some c → s'.closures[id]? = some c

theorem Keeps.refl (s : Store) : Keeps s s :=
  ⟨fun _ has => has, fun _ => List.prefix_rfl, fun _ _ => rfl, fun _ _ found => found⟩

theorem Edit.keeps (edit : Edit region s s') : Keeps s s' := by
  have has := edit.has
  have lt_of_found {α : Type} {xs : Array α} {i : Nat} {x : α} (found : xs[i]? = some x) : i ≠ xs.size :=
    Nat.ne_of_lt (Array.getElem?_eq_some_iff.1 found).1
  cases edit with
  | @newArray elements _ =>
    refine ⟨has, fun id => ?_, fun _ _ => rfl, fun _ _ found => found⟩
    by_cases last : id = s.arrays.size
    · simp [Store.elements, last]
    · simp [Store.elements, Store.newArray, Array.getElem?_push, last]
  | @newObject entries _ =>
    refine ⟨has, fun _ => List.prefix_rfl, fun id has => ?_, fun _ _ found => found⟩
    have other : id ≠ s.objects.size := Nat.ne_of_lt has
    simp [Store.entries, Store.newObject, Array.getElem?_push, other]
  | newClosure _ =>
    refine ⟨has, fun _ => List.prefix_rfl, fun _ _ => rfl, fun id c found => ?_⟩
    simp [Store.newClosure, Array.getElem?_push, lt_of_found found, found]
  | @append changed v _ _ =>
    refine ⟨has, fun id => ?_, fun _ _ => rfl, fun _ _ found => found⟩
    by_cases same : changed = id
    · cases there : s.arrays[id]? with
      | none => simp [Store.elements, there]
      | some elements => simp [Store.elements, Store.append, Array.getElem?_modify, same, there]
    · simp [Store.elements, Store.append, Array.getElem?_modify, same]
  | newScope _ => exact ⟨has, fun _ => List.prefix_rfl, fun _ _ => rfl, fun _ _ found => found⟩
  | define _ _ => exact ⟨has, fun _ => List.prefix_rfl, fun _ _ => rfl, fun _ _ found => found⟩

theorem Keeps.trans (first : Keeps s s') (second : Keeps s' s'') : Keeps s s'' where
  has n there := second.has n (first.has n there)
  elements id := (first.elements id).trans (second.elements id)
  entries id there := (second.entries id (first.has _ there)).trans (first.entries id there)
  closures id c found := second.closures id c (first.closures id c found)

theorem Edits.keeps (edits : Edits region s s') : Keeps s s' := by
  induction edits with
  | refl => exact .refl s
  | tail _ edit ih => exact ih.trans edit.keeps

end TinyScript.Store
