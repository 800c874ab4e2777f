import Mathlib.Data.List.Chain
import TinyScript.Proofs.Store.Growth

namespace TinyScript.Store

/-- There is a reference from the first node to the second. -/
def Refers (s : Store) (n m : Node) : Prop := m ∈ s.edges n

/-- The second node is an aggregate in the first one. -/
def Child (s : Store) (n m : Node) : Prop := m ∈ s.children n

/-- A node can be reached along references, or is where the way begins. -/
abbrev Reaches (s : Store) : Node → Node → Prop := Relation.ReflTransGen s.Refers

/-- An aggregate can reach itself through arrays and objects. -/
def HoldsItself (s : Store) (n : Node) : Prop := Relation.TransGen s.Child n n

/-- Somebody still refers to a node. What a cycle of references leads to is never released. -/
def InUse (s : Store) (roots : List Node) (n : Node) : Prop :=
  ∃ m, (m ∈ roots ∨ Relation.TransGen s.Refers m m) ∧ s.Reaches m n

variable {region : Node → Prop} {s s' : Store} {n m : Node} {roots : List Node}

theorem Child.refers (child : s.Child n m) : s.Refers n m := by
  have edge : m ∈ (s.held n).filterMap Value.node? := (List.mem_filter.1 child).1
  cases n with
  | array id => exact edge
  | object id => exact edge
  | closure id => cases edge
  | scope id => cases edge

theorem Child.isAggregate (child : s.Child n m) : m.isAggregate := (List.mem_filter.1 child).2

/-- Only aggregates hold values. -/
theorem Child.parent (child : s.Child n m) : n.isAggregate := by
  cases n with
  | array id => rfl
  | object id => rfl
  | closure id => cases child
  | scope id => cases child

/-- Only what is there refers to something. -/
theorem Refers.has (edge : s.Refers n m) : s.Has n := by
  refine Classical.byContradiction fun missing => ?_
  unfold Refers at edge
  rw [edges_eq_nil missing] at edge
  cases edge

theorem Child.has (child : s.Child n m) : s.Has n := child.refers.has

/-- Only arrays and objects reach themselves through arrays and objects. -/
theorem HoldsItself.isAggregate (cyclic : s.HoldsItself n) : n.isAggregate := by
  obtain ⟨m, child, _⟩ := Relation.TransGen.head'_iff.1 cyclic
  exact child.parent

/-- Holding itself is one way of referring to itself. -/
theorem HoldsItself.cycle (cyclic : s.HoldsItself n) : Relation.TransGen s.Refers n n :=
  Relation.TransGen.mono (fun _ _ child => child.refers) _ _ cyclic

theorem children_eq_of_held_eq (same : s'.held n = s.held n) : s'.children n = s.children n := by
  unfold children
  rw [same]

theorem InUse.mono {roots' : List Node} (inUse : s.InUse roots n) (sub : ∀ m ∈ roots, s.InUse roots' m) :
    s.InUse roots' n := by
  obtain ⟨m, root | cycle, reaches⟩ := inUse
  · obtain ⟨k, why, before⟩ := sub m root
    exact ⟨k, why, before.trans reaches⟩
  · exact ⟨m, .inr cycle, reaches⟩

theorem InUse.of_mem (root : n ∈ roots) : s.InUse roots n := ⟨n, .inl root, .refl⟩

theorem InUse.reaches (inUse : s.InUse roots n) (reaches : s.Reaches n m) : s.InUse roots m := by
  obtain ⟨k, why, before⟩ := inUse
  exact ⟨k, why, before.trans reaches⟩

/-- A node on a cycle of references keeps itself in use. -/
theorem InUse.of_cycle (cycle : Relation.TransGen s.Refers n n) : s.InUse roots n := ⟨n, .inr cycle, .refl⟩

/-- What is in use is a root, or something in use refers to it. -/
theorem InUse.referred (inUse : s.InUse roots n) : n ∈ roots ∨ ∃ m, s.InUse roots m ∧ s.Refers m n := by
  obtain ⟨m, why, reaches⟩ := inUse
  cases reaches with
  | @tail k _ before edge => exact .inr ⟨k, ⟨m, why, before⟩, edge⟩
  | refl =>
    rcases why with root | cycle
    · exact .inl root
    · obtain ⟨k, before, edge⟩ := Relation.TransGen.tail'_iff.1 cycle
      exact .inr ⟨k, (InUse.of_cycle cycle).reaches before, edge⟩

/-- No reference leads out of a region. -/
theorem Healthy.reaches (healthy : s.Healthy region) (inside : region n) (reaches : s.Reaches n m) : region m := by
  induction reaches with
  | refl => exact inside
  | tail _ edge ih => exact healthy.closed _ _ ih edge

theorem Healthy.has_of_reaches (healthy : s.Healthy region) (has : s.Has n) (reaches : s.Reaches n m) : s.Has m := by
  cases reaches with
  | refl => exact has
  | tail _ edge => exact healthy.has _ _ edge

/-- What can be reached from some roots is a region in which a program can run, together with all that is not
there yet. -/
theorem Healthy.reachable (healthy : s.Healthy region) (roots : List Node) :
    s.Healthy fun n => (∃ root ∈ roots, s.Reaches root n) ∨ ¬ s.Has n where
  closed n m inside edge := by
    rcases inside with ⟨root, mem, reaches⟩ | missing
    · exact .inl ⟨root, mem, reaches.tail edge⟩
    · rw [edges_eq_nil missing] at edge
      cases edge
  has := healthy.has
  older := healthy.older
  fresh n missing := .inr missing

/-- What is not changed, and refers to nothing that is, can be reached only as before. -/
theorem reaches_of_agree {P : Node → Prop} (closed : ∀ n m, P n → s.Refers n m → P m)
    (same : ∀ n, P n → s'.edges n = s.edges n) (inside : P n) (reaches : s'.Reaches n m) : P m ∧ s.Reaches n m := by
  induction reaches with
  | refl => exact ⟨inside, .refl⟩
  | tail _ edge ih =>
    unfold Refers at edge
    rw [same _ ih.1] at edge
    exact ⟨closed _ _ ih.1 edge, ih.2.tail edge⟩

theorem cycle_of_agree {P : Node → Prop} (closed : ∀ n m, P n → s.Refers n m → P m)
    (same : ∀ n, P n → s'.edges n = s.edges n) (inside : P n) (cycle : Relation.TransGen s'.Refers n n) :
    Relation.TransGen s.Refers n n := by
  obtain ⟨m, way, edge⟩ := Relation.TransGen.tail'_iff.1 cycle
  obtain ⟨inside, way⟩ := reaches_of_agree closed same inside way
  unfold Refers at edge
  rw [same m inside] at edge
  exact .tail' way edge

theorem holdsItself_of_agree {P : Node → Prop} (closed : ∀ n m, P n → s.Refers n m → P m)
    (same : ∀ n, P n → s'.held n = s.held n) (inside : P n) (cyclic : s'.HoldsItself n) : s.HoldsItself n := by
  suffices ∀ m, Relation.TransGen s'.Child n m → P m ∧ Relation.TransGen s.Child n m from (this n cyclic).2
  have back {a b : Node} (inside : P a) (child : s'.Child a b) : P b ∧ s.Child a b := by
    have child : s.Child a b := by
      unfold Child at child
      rwa [children_eq_of_held_eq (same a inside)] at child
    exact ⟨closed _ _ inside child.refers, child⟩
  intro m way
  induction way with
  | single child => exact ⟨(back inside child).1, .single (back inside child).2⟩
  | tail _ child ih => exact ⟨(back ih.1 child).1, ih.2.tail (back ih.1 child).2⟩

/-- What a program can refer to aside, nothing is in use that was not in use before. -/
theorem Grows.inUse (grows : Grows region s s') (healthy : s'.Healthy region) {roots' : List Node}
    (known : ∀ root ∈ roots', region root ∨ s.InUse roots root) (inUse : s'.InUse roots' n) :
    region n ∨ s.InUse roots n := by
  have back {a b : Node} (outside : ¬ region a) (edge : s'.Refers a b) : s.Refers a b := by
    unfold Refers at edge
    rwa [grows.edges_eq a outside] at edge
  have outer {a b : Node} (reaches : s'.Reaches a b) : region b ∨ s.Reaches a b := by
    induction reaches with
    | refl => exact .inr .refl
    | tail _ edge ih =>
      rcases Classical.em (region _) with inside | outside
      · exact .inl (healthy.closed _ _ inside edge)
      · exact .inr ((ih.resolve_left outside).tail (back outside edge))
  have around {a b : Node} (outside : ¬ region a) (way : Relation.TransGen s'.Refers a b) :
      region b ∨ Relation.TransGen s.Refers a b := by
    induction way with
    | single edge => exact .inr (.single (back outside edge))
    | tail _ edge ih =>
      rcases Classical.em (region _) with inside | outside
      · exact .inl (healthy.closed _ _ inside edge)
      · exact .inr ((ih.resolve_left outside).tail (back outside edge))
  obtain ⟨m, why, reaches⟩ := inUse
  rcases Classical.em (region m) with inside | outside
  · exact .inl (healthy.reaches inside reaches)
  · refine (outer reaches).imp_right fun before => InUse.reaches ?_ before
    rcases why with root | cycle
    · exact (known m root).resolve_left outside
    · exact ⟨m, .inr ((around outside cycle).resolve_left outside), .refl⟩

theorem InUse.has (healthy : s.Healthy region) (has : ∀ root ∈ roots, s.Has root) (inUse : s.InUse roots n) :
    s.Has n := by
  obtain ⟨m, root | cycle, reaches⟩ := inUse
  · exact healthy.has_of_reaches (has m root) reaches
  · obtain ⟨k, -, edge⟩ := Relation.TransGen.tail'_iff.1 cycle
    exact healthy.has_of_reaches (healthy.has k m edge) reaches

/-- A way through aggregates that meets no array leads to ever older objects. -/
theorem Healthy.object_of_chain (healthy : s.Healthy region) {path : List Node} (chain : (n :: path).IsChain s.Child)
    (objects : ∀ id, Node.array id ∉ path) (mem : m ∈ path) :
    ∃ j, m = .object j ∧ ∀ i, n = .object i → j < i := by
  induction path generalizing n with
  | nil => cases mem
  | cons next path ih =>
    obtain ⟨child, chain⟩ := List.isChain_cons_cons.1 chain
    have first : ∃ k, next = .object k ∧ ∀ i, n = .object i → k < i := by
      cases next with
      | array id => exact absurd List.mem_cons_self (objects id)
      | object k =>
        refine ⟨k, rfl, fun i same => ?_⟩
        subst same
        exact healthy.older i k child.refers
      | closure id => cases child.isAggregate
      | scope id => cases child.isAggregate
    rcases List.mem_cons.1 mem with rfl | later
    · exact first
    · obtain ⟨k, rfl, below⟩ := first
      obtain ⟨j, rfl, lower⟩ := ih chain (fun id mem => objects id (List.mem_cons_of_mem _ mem)) later
      exact ⟨j, rfl, fun i same => Nat.lt_trans (lower k rfl) (below i same)⟩

/-- On every cycle of aggregates there is an array. -/
theorem Healthy.array_mem_of_cycle (healthy : s.Healthy region) {path : List Node}
    (chain : (n :: path).IsChain s.Child) (ends : path.getLast? = some n) : ∃ id, Node.array id ∈ path := by
  rcases Classical.em (∃ id, Node.array id ∈ path) with found | none
  · exact found
  · obtain ⟨j, same, below⟩ := healthy.object_of_chain chain (not_exists.1 none) (List.mem_of_getLast? ends)
    exact absurd (below j same) (Nat.lt_irrefl j)

/-- A way through aggregates meets an array, or leads from an object to an older one. -/
theorem Healthy.array_or_older (healthy : s.Healthy region) (way : Relation.TransGen s.Child n m) :
    (∃ id, Relation.TransGen s.Child n (.array id) ∧ Relation.ReflTransGen s.Child (.array id) m) ∨
      ∀ i, n = .object i → ∃ j, m = .object j ∧ j < i := by
  have step {n m : Node} (child : s.Child n m) :
      (∃ id, m = .array id) ∨ ∃ j, m = .object j ∧ ∀ i, n = .object i → j < i := by
    cases m with
    | array id => exact .inl ⟨id, rfl⟩
    | object j => exact .inr ⟨j, rfl, fun i same => healthy.older i j (same ▸ child.refers)⟩
    | closure id => cases child.isAggregate
    | scope id => cases child.isAggregate
  induction way with
  | single child =>
    rcases step child with ⟨id, rfl⟩ | ⟨j, rfl, below⟩
    · exact .inl ⟨id, .single child, .refl⟩
    · exact .inr fun i same => ⟨j, rfl, below i same⟩
  | tail way child ih =>
    rcases step child with ⟨id, rfl⟩ | ⟨j, rfl, below⟩
    · exact .inl ⟨id, way.tail child, .refl⟩
    · rcases ih with ⟨id, before, after⟩ | older
      · exact .inl ⟨id, before, after.tail child⟩
      · refine .inr fun i same => ?_
        obtain ⟨k, rfl, lower⟩ := older i same
        exact ⟨j, rfl, Nat.lt_trans (below k rfl) lower⟩

/-- What reaches itself through aggregates reaches an array that does. -/
theorem Healthy.array_of_holdsItself (healthy : s.Healthy region) (cyclic : s.HoldsItself n) :
    ∃ id, Relation.ReflTransGen s.Child n (.array id) ∧ s.HoldsItself (.array id) := by
  rcases healthy.array_or_older cyclic with ⟨id, before, after⟩ | older
  · exact ⟨id, before.to_reflTransGen, .trans_right after before⟩
  · cases n with
    | array id => exact ⟨id, .refl, cyclic⟩
    | object i =>
      obtain ⟨j, same, lower⟩ := older i rfl
      cases same
      exact absurd lower (Nat.lt_irrefl _)
    | closure id => cases cyclic.isAggregate
    | scope id => cases cyclic.isAggregate

end TinyScript.Store
