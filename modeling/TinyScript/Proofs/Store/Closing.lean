import TinyScript.Proofs.Store.Shrinking

namespace TinyScript.Store

variable {s : Store} {order : List Node} {n : Node}

/-- What is in itself closes a cycle. -/
theorem closes_of_child (mem : n ∈ order) (child : s.Child n n) : s.Closes order n := by
  obtain ⟨before, behind, same⟩ := List.append_of_mem mem
  exact ⟨n, child, before, behind, same, .refl⟩

/-- What is entered first of all closes a cycle only when it is in itself. -/
theorem closes_first : s.Closes (n :: order) n ↔ s.Child n n := by
  refine ⟨?_, closes_of_child List.mem_cons_self⟩
  rintro ⟨m, child, entrance⟩
  rcases entrance_cons.1 entrance with ⟨rfl, -⟩ | ⟨before, behind, -, way⟩
  · exact child
  · rcases Relation.ReflTransGen.cases_tail way with rfl | ⟨k, -, -, new⟩
    · exact child
    · exact absurd (by simp) new

/-- For every store and every list of arrays: when cycles are broken, the arrays are toured in depth, in the one order
in which their elements and entries stand, and all that can be reached is entered once. Emptied are exactly the
aggregates that close a cycle there: each of them holds one that leads back to it and was entered first of all on the
way. One that is in itself is emptied, what does not hold itself is not, and nothing else changes. That is enough, since
nothing that was entered holds itself any more. -/
theorem breakCycles_closing (s : Store) (arrays : List ArrayId) :
    ∃ order, (∀ other, s.Tour [] (arrays.map .array) other ↔ other = order) ∧ order.Nodup ∧
      (∀ n, n ∈ order ↔ ∃ id ∈ arrays, Relation.ReflTransGen s.Child (.array id) n) ∧
      (∀ n ∈ order, s.Child n n → s.Closes order n) ∧
      (∀ n, s.Closes order n → s.HoldsItself n) ∧
      (∀ id, (s.Closes order (.array id) → (s.breakCycles arrays).elements id = #[]) ∧
        (¬ s.Closes order (.array id) → (s.breakCycles arrays).elements id = s.elements id)) ∧
      (∀ id, (s.Closes order (.object id) → (s.breakCycles arrays).entries id = .empty) ∧
        (¬ s.Closes order (.object id) → (s.breakCycles arrays).entries id = s.entries id)) ∧
      s.Emptied (s.breakCycles arrays) ∧ ∀ n ∈ order, ¬ (s.breakCycles arrays).HoldsItself n := by
  obtain ⟨order, tour, sources⟩ := s.backSources_closes arrays
  have reached (n : Node) : n ∈ order ↔ ∃ id ∈ arrays, Relation.ReflTransGen s.Child (.array id) n := by
    simpa using tour.mem_iff
  refine ⟨order, fun other => ⟨tour.unique, fun same => same ▸ tour⟩, tour.nodup, reached,
    fun n => closes_of_child, fun n closes => closes.holdsItself, fun id => ?_, fun id => ?_, s.clearNodes_emptied _,
    fun n mem => ?_⟩
  · rw [breakCycles, clearNodes_elements]
    exact ⟨fun closes => if_pos ((sources _).2 closes), fun stays => if_neg (mt (sources _).1 stays)⟩
  · rw [breakCycles, clearNodes_entries]
    exact ⟨fun closes => if_pos ((sources _).2 closes), fun stays => if_neg (mt (sources _).1 stays)⟩
  · obtain ⟨id, first, way⟩ := (reached n).1 mem
    exact breakCycles_not_holdsItself first way

/-- Two arrays that are in each other. -/
def couple : Store where
  arrays := #[#[.array 1], #[.array 0]]
  objects := #[]
  closures := #[]
  scopes := #[]
  created := #[]
  captured := #[]

theorem couple_tour : couple.Tour [] [.array 0] [.array 0, .array 1] := by
  have inner : couple.Tour [.array 0, .array 1] (couple.children (.array 1)) [] := .met List.mem_cons_self .done
  have new : Node.array 1 ∉ [Node.array 0] := by decide
  have outer : couple.Tour [.array 0] (couple.children (.array 0)) [.array 1] := .enter new inner .done
  exact .enter List.not_mem_nil outer .done

/-- Not all that could be reached and held itself is empty: of two arrays that are in each other, the first keeps the
second one. -/
theorem breakCycles_leaves_member :
    ¬ ∀ (s : Store) (arrays : List ArrayId), ∀ first ∈ arrays,
      (∀ id, Relation.ReflTransGen s.Child (.array first) (.array id) → s.HoldsItself (.array id) →
        (s.breakCycles arrays).elements id = #[]) ∧
      (∀ id, Relation.ReflTransGen s.Child (.array first) (.object id) → s.HoldsItself (.object id) →
        (s.breakCycles arrays).entries id = .empty) := by
  intro all
  have there : couple.Child (.array 0) (.array 1) := by unfold Child; decide
  have back : couple.Child (.array 1) (.array 0) := by unfold Child; decide
  have apart : ¬ couple.Child (.array 0) (.array 0) := by unfold Child; decide
  obtain ⟨order, tour, sources⟩ := couple.backSources_closes [0]
  obtain rfl := couple_tour.unique tour
  have stays : Node.array 0 ∉ couple.backSources [0] := mt (sources _).1 (mt closes_first.1 apart)
  have empty := (all couple [0] 0 List.mem_cons_self).1 0 .refl (.head there (.single back))
  rw [breakCycles, clearNodes_elements, if_neg stays] at empty
  revert empty
  decide

end TinyScript.Store
