import TinyScript.Proofs.Store.Search

namespace TinyScript.Store

variable {s s' s'' : Store} {region : Node → Prop} {sources : List Node} {n m : Node}

/-- The same things are there, and no references have been added. -/
structure Shrinks (s s' : Store) : Prop where
  has : ∀ n, s'.Has n ↔ s.Has n
  refers : ∀ n m, s'.Refers n m → s.Refers n m

theorem Shrinks.refl (s : Store) : s.Shrinks s := ⟨fun _ => .rfl, fun _ _ edge => edge⟩

theorem Shrinks.trans (first : s.Shrinks s') (second : s'.Shrinks s'') : s.Shrinks s'' :=
  ⟨fun n => (second.has n).trans (first.has n), fun n m edge => first.refers n m (second.refers n m edge)⟩

theorem Shrinks.foldl {α : Type} {f : Store → α → Store} (step : ∀ s a, Shrinks s (f s a)) (as : List α)
    (s : Store) :
    s.Shrinks (as.foldl f s) := by
  induction as generalizing s with
  | nil => exact .refl s
  | cons a as ih => exact (step s a).trans (ih (f s a))

theorem Shrinks.healthy (shrinks : s.Shrinks s') (healthy : s.Healthy region) : s'.Healthy region where
  closed n m inside edge := healthy.closed n m inside (shrinks.refers n m edge)
  has n m edge := (shrinks.has m).2 (healthy.has n m (shrinks.refers n m edge))
  older i j edge := healthy.older i j (shrinks.refers _ _ edge)
  fresh n missing := healthy.fresh n fun has => missing ((shrinks.has n).2 has)

theorem Shrinks.reaches (shrinks : s.Shrinks s') (reaches : s'.Reaches n m) : s.Reaches n m :=
  Relation.ReflTransGen.mono shrinks.refers n m reaches

/-- Emptying what broken nodes are broken at leaves no way back to them. -/
theorem Broken.not_holdsItself {s' : Store} (broken : s.Broken sources n)
    (left : ∀ n m, s'.Child n m → s.Child n m ∧ n ∉ sources) : ¬ s'.HoldsItself n := by
  induction broken with
  | emptied mem =>
    intro cyclic
    obtain ⟨m, child, _⟩ := Relation.TransGen.head'_iff.1 cyclic
    exact (left _ _ child).2 mem
  | inner _ ih =>
    intro cyclic
    obtain ⟨m, child, back⟩ := Relation.TransGen.head'_iff.1 cyclic
    exact ih m (left _ _ child).1 (.tail' back child)

theorem clearNode_elements (s : Store) (n : Node) (id : ArrayId) :
    (s.clearNode n).elements id = if n = .array id then #[] else s.elements id := by
  cases n with
  | array k =>
    by_cases same : k = id
    · subst same
      cases there : s.arrays[k]? <;> simp [clearNode, clearArray, elements, Array.getElem?_modify, there]
    · simp [clearNode, clearArray, elements, Array.getElem?_modify, same]
  | object k => simp [clearNode, clearObject, elements]
  | closure k => simp [clearNode]
  | scope k => simp [clearNode]

theorem clearNode_entries (s : Store) (n : Node) (id : ObjectId) :
    (s.clearNode n).entries id = if n = .object id then .empty else s.entries id := by
  cases n with
  | array k => simp [clearNode, clearArray, entries]
  | object k =>
    by_cases same : k = id
    · subst same
      cases there : s.objects[k]? <;> simp [clearNode, clearObject, entries, Array.getElem?_modify, there]
    · simp [clearNode, clearObject, entries, Array.getElem?_modify, same]
  | closure k => simp [clearNode]
  | scope k => simp [clearNode]

theorem clearScope_bindings (s : Store) (id k : ScopeId) :
    (s.clearScope id).bindings k = if id = k then .empty else s.bindings k := by
  by_cases same : id = k
  · subst same
    cases there : s.scopes[id]? <;> simp [clearScope, bindings, Array.getElem?_modify, there]
  · simp [clearScope, bindings, Array.getElem?_modify, same]

/-- A scope that forgets its names keeps its place among the others. -/
theorem clearScope_outer? (s : Store) (id k : ScopeId) : (s.clearScope id).outer? k = s.outer? k := by
  cases there : s.scopes[k]? <;> simp [clearScope, outer?, Array.getElem?_modify, there]
  split <;> rfl

/-- Steps of which only one kind clears a view clear it if there is one of that kind among them. -/
theorem foldl_clears {α β : Type} [DecidableEq α] {f : Store → α → Store} (view : Store → β) {cleared : β} {a : α}
    (step : ∀ s b, view (f s b) = if b = a then cleared else view s) (s : Store) (as : List α) :
    view (as.foldl f s) = if a ∈ as then cleared else view s := by
  induction as generalizing s with
  | nil => simp
  | cons b as ih =>
    rw [List.foldl_cons, ih, step]
    by_cases same : b = a
    · simp [same]
    · simp [same, Ne.symm same]

theorem clearNodes_elements (s : Store) (nodes : List Node) (id : ArrayId) :
    (nodes.foldl clearNode s).elements id = if Node.array id ∈ nodes then #[] else s.elements id :=
  foldl_clears (·.elements id) (fun s n => s.clearNode_elements n id) s nodes

theorem clearNodes_entries (s : Store) (nodes : List Node) (id : ObjectId) :
    (nodes.foldl clearNode s).entries id = if Node.object id ∈ nodes then .empty else s.entries id :=
  foldl_clears (·.entries id) (fun s n => s.clearNode_entries n id) s nodes

theorem clearScopes_bindings (s : Store) (ids : List ScopeId) (k : ScopeId) :
    (ids.foldl clearScope s).bindings k = if k ∈ ids then .empty else s.bindings k :=
  foldl_clears (·.bindings k) (fun s id => s.clearScope_bindings id k) s ids

theorem clearScopes_outer? (s : Store) (ids : List ScopeId) (k : ScopeId) :
    (ids.foldl clearScope s).outer? k = s.outer? k := by
  induction ids generalizing s with
  | nil => rfl
  | cons id ids ih => rw [List.foldl_cons, ih, clearScope_outer?]

theorem clearNode_shrinks (s : Store) (n : Node) : s.Shrinks (s.clearNode n) where
  has m := by cases n <;> cases m <;> simp [clearNode, clearArray, clearObject, Has]
  refers k m edge := by
    unfold Refers at edge
    cases k with
    | array id =>
      simp only [edges, held, clearNode_elements] at edge
      split at edge
      · cases edge
      · exact edge
    | object id =>
      simp only [edges, held, clearNode_entries] at edge
      split at edge
      · cases edge
      · exact edge
    | closure id => cases n <;> exact edge
    | scope id => cases n <;> exact edge

theorem clearScope_shrinks (s : Store) (id : ScopeId) : s.Shrinks (s.clearScope id) where
  has m := by cases m <;> simp [clearScope, Has]
  refers n m edge := by
    cases n with
    | scope k =>
      rcases List.mem_append.1 edge with bound | around
      · refine List.mem_append_left _ ?_
        rw [clearScope_bindings] at bound
        split at bound
        · cases bound
        · exact bound
      · rw [clearScope_outer?] at around
        exact List.mem_append_right _ around
    | _ => exact edge

theorem breakCycles_shrinks (s : Store) (arrays : List ArrayId) : s.Shrinks (s.breakCycles arrays) :=
  .foldl clearNode_shrinks _ s

/-- An array that cannot reach itself keeps its elements. -/
theorem breakCycles_elements (arrays : List ArrayId) {id : ArrayId} (acyclic : ¬ s.HoldsItself (.array id)) :
    (s.breakCycles arrays).elements id = s.elements id := by
  have outside : Node.array id ∉ s.backSources arrays := fun mem => acyclic ((s.backSources_correct arrays).1 _ mem)
  rw [breakCycles, clearNodes_elements, if_neg outside]

/-- An object that cannot reach itself keeps its entries. -/
theorem breakCycles_entries (arrays : List ArrayId) {id : ObjectId} (acyclic : ¬ s.HoldsItself (.object id)) :
    (s.breakCycles arrays).entries id = s.entries id := by
  have outside : Node.object id ∉ s.backSources arrays := fun mem => acyclic ((s.backSources_correct arrays).1 _ mem)
  rw [breakCycles, clearNodes_entries, if_neg outside]

/-- What is in an aggregate after cycles are broken was there before, and the aggregate was not emptied. -/
theorem breakCycles_child {arrays : List ArrayId} (child : (s.breakCycles arrays).Child n m) :
    s.Child n m ∧ n ∉ s.backSources arrays := by
  unfold Child children at child
  cases n with
  | array id =>
    rw [breakCycles, held, clearNodes_elements] at child
    split at child
    · cases child
    · next outside => exact ⟨child, outside⟩
  | object id =>
    rw [breakCycles, held, clearNodes_entries] at child
    split at child
    · cases child
    · next outside => exact ⟨child, outside⟩
  | closure id => cases child
  | scope id => cases child

/-- Nothing that could be reached from where the search began holds itself any more. -/
theorem breakCycles_not_holdsItself {arrays : List ArrayId} {id : ArrayId} (mem : id ∈ arrays)
    (reaches : Relation.ReflTransGen s.Child (.array id) n) : ¬ (s.breakCycles arrays).HoldsItself n :=
  ((s.backSources_correct arrays).2 id mem n reaches).not_holdsItself fun _ _ child => breakCycles_child child

/-- Nothing comes or goes, and functions and scopes are as they were. -/
structure Emptied (s s' : Store) : Prop where
  arrays : s'.arrays.size = s.arrays.size
  objects : s'.objects.size = s.objects.size
  closures : s'.closures = s.closures
  scopes : s'.scopes = s.scopes

theorem clearNodes_emptied (s : Store) (nodes : List Node) : s.Emptied (nodes.foldl clearNode s) := by
  induction nodes generalizing s with
  | nil => exact ⟨rfl, rfl, rfl, rfl⟩
  | cons n nodes ih =>
    obtain ⟨arrays, objects, closures, scopes⟩ := ih (s.clearNode n)
    cases n with
    | array id => exact ⟨arrays.trans Array.size_modify, objects, closures, scopes⟩
    | object id => exact ⟨arrays, objects.trans Array.size_modify, closures, scopes⟩
    | closure id => exact ⟨arrays, objects, closures, scopes⟩
    | scope id => exact ⟨arrays, objects, closures, scopes⟩

/-- However arrays and objects hold each other: when the cycles are broken that a search from some arrays meets, no
array and no object that could be reached from these holds itself any more. What has been emptied for that held itself
before, and all else is exactly as it was. -/
theorem breakCycles_acyclic (s : Store) (arrays : List ArrayId) :
    (∀ id ∈ arrays, ∀ n, Relation.ReflTransGen s.Child (.array id) n → ¬ (s.breakCycles arrays).HoldsItself n) ∧
      (∀ id, (s.breakCycles arrays).elements id = s.elements id ∨
        (s.breakCycles arrays).elements id = #[] ∧ s.HoldsItself (.array id)) ∧
      (∀ id, (s.breakCycles arrays).entries id = s.entries id ∨
        (s.breakCycles arrays).entries id = .empty ∧ s.HoldsItself (.object id)) ∧
      s.Emptied (s.breakCycles arrays) := by
  have sound := (s.backSources_correct arrays).1
  refine ⟨fun id mem n reaches => breakCycles_not_holdsItself mem reaches, fun id => ?_, fun id => ?_,
    s.clearNodes_emptied _⟩
  · by_cases mem : Node.array id ∈ s.backSources arrays
    · exact .inr ⟨by rw [breakCycles, clearNodes_elements, if_pos mem], sound _ mem⟩
    · exact .inl (by rw [breakCycles, clearNodes_elements, if_neg mem])
  · by_cases mem : Node.object id ∈ s.backSources arrays
    · exact .inr ⟨by rw [breakCycles, clearNodes_entries, if_pos mem], sound _ mem⟩
    · exact .inl (by rw [breakCycles, clearNodes_entries, if_neg mem])

/-- Two objects that hold each other, and an array that holds one of them. -/
def ring : Store where
  arrays := #[#[.object 0]]
  objects := #[.ofList [("next", .object 1)], .ofList [("next", .object 0)]]
  closures := #[]
  scopes := #[]
  created := #[]
  captured := #[]

/-- Objects that hold each other do not do so any more when the array that leads to them has been looked at, once or
twice. -/
theorem breakCycles_acyclic_ring : ring.HoldsItself (.object 0) ∧ ring.HoldsItself (.object 1) ∧
    ¬ (ring.breakCycles [0, 0]).HoldsItself (.object 0) ∧ ¬ (ring.breakCycles [0, 0]).HoldsItself (.object 1) := by
  have inside : ring.Child (.array 0) (.object 0) := by unfold Child; decide
  have there : ring.Child (.object 0) (.object 1) := by unfold Child; decide
  have back : ring.Child (.object 1) (.object 0) := by unfold Child; decide
  have acyclic := (breakCycles_acyclic ring [0, 0]).1 0 List.mem_cons_self
  exact ⟨.head there (.single back), .head back (.single there), acyclic _ (.single inside),
    acyclic _ (.head inside (.single there))⟩

end TinyScript.Store
