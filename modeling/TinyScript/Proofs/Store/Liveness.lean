import Mathlib.Data.List.Nodup
import TinyScript.Store.Liveness
import TinyScript.Proofs.Store.Reach

namespace TinyScript

/-- The counts are those of the references in a list. -/
def References.Tally (r : References) (held : List Node) : Prop := ∀ n, r.count n = held.count n

namespace References

variable {r : References} {held held' : List Node} {n m : Node}

theorem count_add (r : References) (n m : Node) :
    (r.add n).count m = if n = m then r.count m + 1 else r.count m := by
  unfold add
  rw [count, Std.HashMap.getD_insert]
  by_cases same : n = m
  · subst same
    simp
  · simp [same, count]

theorem count_remove (r : References) (n m : Node) :
    (r.remove n).count m = if n = m then r.count m - 1 else r.count m := by
  unfold remove
  rw [count, Std.HashMap.getD_insert]
  by_cases same : n = m
  · subst same
    simp
  · simp [same, count]

theorem Tally.of_perm (tally : r.Tally held) (perm : held.Perm held') : r.Tally held' :=
  fun n => (tally n).trans (perm.count_eq n)

theorem Tally.add (tally : r.Tally held) (n : Node) : (r.add n).Tally (n :: held) := by
  intro m
  rw [count_add, tally m, List.count_cons]
  by_cases same : n = m <;> simp [same]

theorem Tally.remove (tally : r.Tally (n :: held)) : (r.remove n).Tally held := by
  intro m
  rw [count_remove, tally m, List.count_cons]
  by_cases same : n = m <;> simp [same]

theorem Tally.addAll (tally : r.Tally held) (more : List Node) : (more.foldl .add r).Tally (more ++ held) := by
  induction more generalizing r held with
  | nil => exact tally
  | cons n more ih => exact (ih (tally.add n)).of_perm List.perm_middle

end References

namespace Store

open References

variable {s : Store} {roots left released held : List Node} {r : References} {n m : Node}

/-- The references are counted one by one. -/
theorem references_tally (s : Store) (roots nodes : List Node) :
    (s.references roots nodes).Tally (nodes.flatMap s.edges ++ roots) := by
  have initial : (roots.foldl References.add ∅).Tally roots := by
    have none : (∅ : References).Tally [] := fun n => Std.HashMap.getD_empty
    simpa using none.addAll roots
  suffices ∀ r held, References.Tally r held →
      (nodes.foldl (fun r n => (s.edges n).foldl .add r) r).Tally (nodes.flatMap s.edges ++ held) from
    this _ _ initial
  intro r held tally
  induction nodes generalizing r held with
  | nil => exact tally
  | cons n nodes ih =>
    have later := ih _ _ (tally.addAll (s.edges n))
    refine later.of_perm ?_
    rw [List.flatMap_cons, ← List.append_assoc]
    exact List.perm_append_comm.append_right held

/-- Nodes are waiting for their release: nothing refers to them. Of the nodes that are left they are. Nothing
refers to a node that is not left any more. -/
structure Waiting (left released : List Node) (r : References) : Prop where
  mem : ∀ n ∈ released, n ∈ left
  count : ∀ n ∈ released, r.count n = 0
  nodup : released.Nodup
  gone : ∀ n, n ∉ left → r.count n = 0

theorem count_remove_eq_zero (zero : r.count m = 0) (n : Node) : (r.remove n).count m = 0 := by
  rw [count_remove]
  split
  · omega
  · exact zero

theorem Waiting.remove (waiting : Waiting left released r) (n : Node) :
    Waiting left (if r.count n = 1 then n :: released else released) (r.remove n) := by
  have gone (m : Node) (outside : m ∉ left) := count_remove_eq_zero (waiting.gone m outside) n
  split
  · next last =>
    have none : (r.remove n).count n = 0 := by
      rw [count_remove, if_pos rfl, last]
    have new : n ∉ released := fun mem => by
      have zero := waiting.count n mem
      omega
    have inside : n ∈ left := by
      rcases Classical.em (n ∈ left) with inside | outside
      · exact inside
      · have zero := waiting.gone n outside
        omega
    refine ⟨fun m mem => ?_, fun m mem => ?_, List.nodup_cons.2 ⟨new, waiting.nodup⟩, gone⟩
    · rcases List.mem_cons.1 mem with rfl | mem
      · exact inside
      · exact waiting.mem m mem
    · rcases List.mem_cons.1 mem with rfl | mem
      · exact none
      · exact count_remove_eq_zero (waiting.count m mem) n
  · exact ⟨waiting.mem, fun m mem => count_remove_eq_zero (waiting.count m mem) n, waiting.nodup, gone⟩

theorem Waiting.giveUp (targets : List Node) (waiting : Waiting left released r) :
    Waiting left (giveUp targets released r).1 (giveUp targets released r).2 := by
  induction targets generalizing released r with
  | nil => exact waiting
  | cons n targets ih => exact ih (waiting.remove n)

theorem giveUp_tally {targets : List Node} (tally : r.Tally (targets ++ held)) :
    (giveUp targets released r).2.Tally held := by
  induction targets generalizing released r with
  | nil => exact tally
  | cons n targets ih => exact ih tally.remove

/-- The roots and the nodes that are left hold the references, and what is in use is left. -/
structure Holding (s : Store) (roots left : List Node) (r : References) : Prop where
  tally : r.Tally (left.flatMap s.edges ++ roots)
  used : ∀ n, s.InUse roots n → n ∈ left

/-- Something refers to what is in use. -/
theorem Holding.count_ne_zero (holding : s.Holding roots left r) (inUse : s.InUse roots n) : r.count n ≠ 0 := by
  have referred : n ∈ left.flatMap s.edges ++ roots := by
    rcases inUse.referred with root | ⟨m, inUse, edge⟩
    · exact List.mem_append_right _ root
    · exact List.mem_append_left _ (List.mem_flatMap.2 ⟨m, holding.used m inUse, edge⟩)
  rw [holding.tally n]
  exact Nat.ne_of_gt (List.count_pos_iff.2 referred)

/-- A node that waits is released. -/
theorem Holding.release (holding : s.Holding roots left r) (waiting : Waiting left (n :: released) r) :
    s.Holding roots (left.erase n) (giveUp (s.edges n) released r).2 where
  tally := by
    have order := (List.perm_cons_erase (waiting.mem n List.mem_cons_self)).flatMap_right s.edges
    refine giveUp_tally (holding.tally.of_perm ?_)
    rw [← List.append_assoc, ← List.flatMap_cons]
    exact order.append_right roots
  used m inUse := by
    have counted := holding.count_ne_zero inUse
    refine (List.mem_erase_of_ne fun same => counted ?_).2 (holding.used m inUse)
    exact same ▸ waiting.count n List.mem_cons_self

theorem Waiting.tail (waiting : Waiting left (n :: released) r) : Waiting (left.erase n) released r where
  mem m mem := by
    refine (List.mem_erase_of_ne fun same => ?_).2 (waiting.mem m (List.mem_cons_of_mem _ mem))
    exact (List.nodup_cons.1 waiting.nodup).1 (same ▸ mem)
  count m mem := waiting.count m (List.mem_cons_of_mem _ mem)
  nodup := (List.nodup_cons.1 waiting.nodup).2
  gone m outside := by
    by_cases same : m = n
    · exact same ▸ waiting.count n List.mem_cons_self
    · exact waiting.gone m fun mem => outside ((List.mem_erase_of_ne same).2 mem)

/-- However many steps are made, what is in use stays counted. -/
theorem release_holding (steps : Nat) (holding : s.Holding roots left r) (waiting : Waiting left released r) :
    ∃ left, s.Holding roots left (s.release steps released r) := by
  induction steps generalizing left released r with
  | zero => exact ⟨left, holding⟩
  | succ steps ih =>
    cases released with
    | nil => exact ⟨left, holding⟩
    | cons n released => exact ih (holding.release waiting) (waiting.tail.giveUp (s.edges n))

theorem mem_nodes : n ∈ s.nodes ↔ s.Has n := by
  cases n <;> simp [nodes, Has]

theorem nodes_nodup (s : Store) : s.nodes.Nodup := by
  have each {f : Nat → Node} (injective : Function.Injective f) (size : Nat) : ((List.range size).map f).Nodup :=
    List.nodup_range.map injective
  unfold nodes
  simp only [List.nodup_append, List.mem_append, List.mem_map]
  refine ⟨⟨⟨each (fun _ _ => Node.array.inj) _, each (fun _ _ => Node.object.inj) _, ?_⟩,
    each (fun _ _ => Node.closure.inj) _, ?_⟩, each (fun _ _ => Node.scope.inj) _, ?_⟩
  · rintro _ ⟨i, -, rfl⟩ _ ⟨j, -, rfl⟩ same
    cases same
  · rintro _ (⟨i, -, rfl⟩ | ⟨i, -, rfl⟩) _ ⟨j, -, rfl⟩ same <;> cases same
  · rintro _ ((⟨i, -, rfl⟩ | ⟨i, -, rfl⟩) | ⟨i, -, rfl⟩) _ ⟨j, -, rfl⟩ same <;> cases same

/-- What is left at the end is counted, for the roots and for the nodes that have not been released. -/
theorem settle_holding {region : Node → Prop} (healthy : s.Healthy region) (has : ∀ root ∈ roots, s.Has root) :
    ∃ left, s.Holding roots left (s.settle roots) := by
  have tally := s.references_tally roots s.nodes
  have holding : s.Holding roots s.nodes (s.references roots s.nodes) :=
    ⟨tally, fun n inUse => mem_nodes.2 (inUse.has healthy has)⟩
  have waiting : Waiting s.nodes (s.nodes.filter fun n => (s.references roots s.nodes).count n = 0)
      (s.references roots s.nodes) := by
    refine ⟨fun n mem => (List.mem_filter.1 mem).1, fun n mem => by simpa using (List.mem_filter.1 mem).2,
      s.nodes_nodup.filter _, fun n outside => ?_⟩
    rw [tally n]
    refine List.count_eq_zero.2 fun referred => outside (mem_nodes.2 ?_)
    rcases List.mem_append.1 referred with edge | root
    · obtain ⟨m, -, edge⟩ := List.mem_flatMap.1 edge
      exact healthy.has m n edge
    · exact has n root
  exact release_holding s.nodes.length holding waiting

/-- The created arrays that are in use are looked at. -/
theorem mem_createdInUse {region : Node → Prop} (healthy : s.Healthy region) (has : ∀ root ∈ roots, s.Has root)
    {id : ArrayId} (inUse : s.InUse roots (.array id)) (created : id ∈ s.created) : id ∈ s.createdInUse roots := by
  obtain ⟨left, holding⟩ := settle_holding healthy has
  refine List.mem_filter.2 ⟨created.val, ?_⟩
  simpa using holding.count_ne_zero inUse

end Store

end TinyScript
