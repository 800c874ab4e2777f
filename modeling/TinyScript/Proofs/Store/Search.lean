import Mathlib.Data.List.Perm.Subperm
import TinyScript.Store.Cycles
import TinyScript.Proofs.Store.Tours

namespace TinyScript.Store

variable {s : Store} {path seen pending more order order' sources : List Node} {here n m : Node}
  {found found' found'' : Search} {back back' : Node → Prop}

/-- Every way on from a node ends, or comes to a node that is emptied. -/
inductive Broken (s : Store) (sources : List Node) : Node → Prop
  | emptied {n : Node} : n ∈ sources → Broken s sources n
  | inner {n : Node} : (∀ m, s.Child n m → Broken s sources m) → Broken s sources n

/-- The search has come to a node along a path, which has the latest node first. The nodes on the path are there, since
they hold something. -/
structure Way (s : Store) (path : List Node) (here : Node) : Prop where
  nodup : (here :: path).Nodup
  has : ∀ n ∈ path, s.Has n
  isAggregate : ∀ n ∈ path, n.isAggregate

theorem Way.start (s : Store) (n : Node) : s.Way [] n where
  nodup := by simp
  has m mem := by cases mem
  isAggregate m mem := by cases mem

theorem Way.step (way : s.Way path here) (child : s.Child here n) (new : n ∉ here :: path) :
    s.Way (here :: path) n where
  nodup := List.nodup_cons.2 ⟨new, way.nodup⟩
  has m mem := by
    rcases List.mem_cons.1 mem with rfl | mem
    · exact child.has
    · exact way.has m mem
  isAggregate m mem := by
    rcases List.mem_cons.1 mem with rfl | mem
    · exact child.parent
    · exact way.isAggregate m mem

/-- Different aggregates of a store are no more than it has. -/
theorem length_le_aggregateCount {ns : List Node} (nodup : ns.Nodup) (has : ∀ n ∈ ns, s.Has n)
    (isAggregate : ∀ n ∈ ns, n.isAggregate) : ns.length ≤ s.aggregateCount := by
  have sub : ns ⊆ (List.range s.arrays.size).map Node.array ++ (List.range s.objects.size).map Node.object := by
    intro n mem
    have has := has n mem
    have isAggregate := isAggregate n mem
    cases n with
    | array id => exact List.mem_append_left _ (List.mem_map.2 ⟨id, List.mem_range.2 has, rfl⟩)
    | object id => exact List.mem_append_right _ (List.mem_map.2 ⟨id, List.mem_range.2 has, rfl⟩)
    | closure id => cases isAggregate
    | scope id => cases isAggregate
  simpa [aggregateCount] using (nodup.subperm sub).length_le

/-- A path does not pass through a node twice, so it has no more nodes than there are aggregates. -/
theorem Way.length_le (way : s.Way path here) : path.length ≤ s.aggregateCount :=
  length_le_aggregateCount (List.nodup_cons.1 way.nodup).2 way.has way.isAggregate

/-- What the search does about a child of a node. -/
def visit (s : Store) (depth : Nat) (path : List Node) (here : Node) (found : Search) (child : Node) : Search :=
  if found.entered.contains child then
    if child ∈ here :: path then { found with sources := here :: found.sources } else found
  else s.search depth (here :: path) child found

theorem search_succ (s : Store) (depth : Nat) (path : List Node) (here : Node) (found : Search) :
    s.search (depth + 1) path here found =
      (s.children here).foldl (s.visit depth path here) { found with entered := found.entered.insert here } := rfl

/-- What a search below a path does when some nodes have been seen: it enters nodes in an order and finds those of them
that turn back, besides some that are known to do so. -/
structure Search.Enters (s : Store) (path seen order : List Node) (back : Node → Prop) (found found' : Search) :
    Prop where
  entered : ∀ n, n ∈ found'.entered ↔ n ∈ seen ++ order
  sources : ∀ n, n ∈ found'.sources ↔ n ∈ found.sources ∨ back n ∨ s.TurnsBack path seen order n

namespace Search.Enters

theorem refl (met : ∀ n, n ∈ found.entered ↔ n ∈ seen) : Enters s path seen [] (fun _ => False) found found where
  entered := by simpa using met
  sources n := by simp [not_turnsBack_nil]

theorem append (tour : s.Tour seen pending order) (tour' : s.Tour (seen ++ order) more order')
    (first : Enters s path seen order back found found')
    (later : Enters s path (seen ++ order) order' back' found' found'') :
    Enters s path seen (order ++ order') (fun n => back n ∨ back' n) found found'' where
  entered n := by rw [later.entered, List.append_assoc]
  sources n := by
    rw [later.sources, first.sources, turnsBack_append tour tour']
    tauto

end Search.Enters

/-- Steps that search from one node each search from all of them in turn. -/
theorem foldl_enters (found : Search) {f : Search → Node → Search} {back : Node → Node → Prop}
    (step : ∀ n ∈ pending, ∀ seen found, (∀ m ∈ path, m ∈ seen) → (∀ m, m ∈ found.entered ↔ m ∈ seen) →
      ∃ order, s.Tour seen [n] order ∧ Search.Enters s path seen order (back n) found (f found n))
    (onPath : ∀ m ∈ path, m ∈ seen) (met : ∀ m, m ∈ found.entered ↔ m ∈ seen) :
    ∃ order, s.Tour seen pending order ∧
      Search.Enters s path seen order (fun k => ∃ n ∈ pending, back n k) found (pending.foldl f found) := by
  induction pending generalizing seen found with
  | nil => exact ⟨[], .done, by simpa using Search.Enters.refl met⟩
  | cons n pending ih =>
    obtain ⟨order, tour, first⟩ := step n List.mem_cons_self seen found onPath met
    obtain ⟨order', tour', later⟩ := ih (f found n) (fun m mem => step m (List.mem_cons_of_mem _ mem))
      (fun m mem => List.mem_append_left order (onPath m mem)) first.entered
    refine ⟨order ++ order', tour.append tour', ?_⟩
    simpa only [List.exists_mem_cons_iff, List.foldl_cons] using first.append tour tour' later

/-- A node that has been met already is not entered again. -/
theorem visit_met {depth : Nat} (met : ∀ m, m ∈ found.entered ↔ m ∈ seen) (old : n ∈ seen) :
    Search.Enters s (here :: path) seen [] (fun k => k = here ∧ n ∈ here :: path) found
      (s.visit depth path here found n) := by
  rw [visit, if_pos (Std.HashSet.mem_iff_contains.1 ((met n).2 old))]
  split
  · next onPath =>
    refine ⟨by simpa using met, fun k => ?_⟩
    simp [not_turnsBack_nil, onPath, or_comm]
  · next outside =>
    refine ⟨by simpa using met, fun k => ?_⟩
    simp only [not_turnsBack_nil, outside, and_false, or_false]

/-- A search enters its nodes in the order of a tour, and finds exactly those that turn back. -/
theorem search_enters {depth : Nat} (enough : s.aggregateCount < depth + path.length) (way : s.Way path here)
    (onPath : ∀ m ∈ path, m ∈ seen) (met : ∀ m, m ∈ found.entered ↔ m ∈ seen) (new : here ∉ seen) :
    ∃ order, s.Tour seen [here] order ∧
      Search.Enters s path seen order (fun _ => False) found (s.search depth path here found) := by
  induction depth generalizing path here seen found with
  | zero =>
    have short := way.length_le
    omega
  | succ depth ih =>
    have step : ∀ n ∈ s.children here, ∀ seen found, (∀ m ∈ here :: path, m ∈ seen) →
        (∀ m, m ∈ found.entered ↔ m ∈ seen) → ∃ order, s.Tour seen [n] order ∧
          Search.Enters s (here :: path) seen order (fun k => k = here ∧ n ∈ here :: path) found
            (s.visit depth path here found n) := by
      intro n child seen found onPath met
      by_cases old : n ∈ seen
      · exact ⟨[], .met old .done, visit_met met old⟩
      · have outside : n ∉ here :: path := fun mem => old (onPath n mem)
        have enough : s.aggregateCount < depth + (here :: path).length := by
          rw [List.length_cons]
          omega
        obtain ⟨order, tour, enters⟩ := ih enough (way.step child outside) onPath met old
        rw [visit, if_neg (mt Std.HashSet.mem_iff_contains.2 (mt (met n).1 old))]
        refine ⟨order, tour, enters.entered, fun k => ?_⟩
        rw [enters.sources, iff_false_intro outside, and_false]
    have entered : ∀ m, m ∈ found.entered.insert here ↔ m ∈ seen ++ [here] := fun m => by
      rw [Std.HashSet.mem_insert, beq_iff_eq, met, List.mem_append, List.mem_singleton, or_comm, eq_comm (a := here)]
    have inside : ∀ m ∈ here :: path, m ∈ seen ++ [here] :=
      List.forall_mem_cons.2 ⟨by simp, fun m mem => List.mem_append_left _ (onPath m mem)⟩
    obtain ⟨below, tour, enters⟩ := foldl_enters { found with entered := found.entered.insert here } step inside entered
    refine ⟨here :: below, ?_, ?_, fun n => ?_⟩
    · simpa using Tour.enter new tour .done
    · simpa [search_succ] using enters.entered
    · rw [search_succ, enters.sources, turnsBack_cons tour, false_or]
      refine or_congr_right (or_congr_left ⟨?_, ?_⟩)
      · rintro ⟨m, child, same, back⟩
        exact ⟨same, m, child, back⟩
      · rintro ⟨same, m, child, back⟩
        exact ⟨m, child, same, back⟩

/-- An aggregate closes a cycle when it holds one that leads to it and is entered first of all on this way. -/
def Closes (s : Store) (order : List Node) (n : Node) : Prop := ∃ m, s.Child n m ∧ s.Entrance [] order m n

theorem Entrance.reaches (entrance : s.Entrance seen order m n) : Relation.ReflTransGen s.Child m n := by
  obtain ⟨before, behind, -, way⟩ := entrance
  exact Relation.ReflTransGen.mono (fun _ _ step => step.1) _ _ way

/-- What closes a cycle is on it. -/
theorem Closes.holdsItself (closes : s.Closes order n) : s.HoldsItself n := by
  obtain ⟨m, child, entrance⟩ := closes
  exact .head' child entrance.reaches

/-- The arrays are toured, and what closes a cycle then is what is found. -/
theorem backSources_closes (s : Store) (arrays : List ArrayId) :
    ∃ order, s.Tour [] (arrays.map .array) order ∧ ∀ n, n ∈ s.backSources arrays ↔ s.Closes order n := by
  have step : ∀ n ∈ arrays.map Node.array, ∀ seen found, (∀ m ∈ [], m ∈ seen) → (∀ m, m ∈ found.entered ↔ m ∈ seen) →
      ∃ order, s.Tour seen [n] order ∧ Search.Enters s [] seen order (fun _ => False) found
        (if found.entered.contains n then found else s.search (s.aggregateCount + 1) [] n found) := by
    intro n _ seen found onPath met
    by_cases old : n ∈ seen
    · rw [if_pos (Std.HashSet.mem_iff_contains.1 ((met n).2 old))]
      exact ⟨[], .met old .done, .refl met⟩
    · rw [if_neg (mt Std.HashSet.mem_iff_contains.2 (mt (met n).1 old))]
      exact search_enters (Nat.lt_succ_self _) (.start s n) onPath met old
  have start : ∀ m, m ∈ (∅ : Std.HashSet Node) ↔ m ∈ ([] : List Node) := fun m => by simp
  obtain ⟨order, tour, enters⟩ := foldl_enters ⟨∅, []⟩ step nofun start
  refine ⟨order, tour, fun n => ?_⟩
  have sources := enters.sources n
  rw [List.foldl_map] at sources
  rw [backSources, sources]
  simp only [TurnsBack, Closes, List.not_mem_nil, false_or, and_false, exists_false]
  exact ⟨And.right, fun closes => ⟨closes.choose_spec.2.mem tour, closes⟩⟩

/-- Where all that turns back is emptied, whatever is entered is broken, if what had been seen before is broken or on
the path. -/
theorem Tour.broken (tour : s.Tour seen pending order) (emptied : ∀ n, s.TurnsBack path seen order n → n ∈ sources)
    (old : ∀ n ∈ seen, n ∉ path → s.Broken sources n) : ∀ n ∈ order, s.Broken sources n := by
  induction tour generalizing path with
  | done => exact nofun
  | met _ _ ih => exact ih emptied old
  | @enter seen more below behind n new first second ih ih' =>
    have start : s.Tour seen [n] (n :: below) := by simpa using Tour.enter new first .done
    have turning (m : Node) (turns : s.TurnsBack path seen (n :: below) m) : m ∈ sources :=
      emptied m ((turnsBack_append start second).2 (.inl turns))
    -- What has been seen is broken, or it is on the path to the children.
    have before (m : Node) (mem : m ∈ seen ++ [n]) (outside : m ∉ n :: path) : s.Broken sources m := by
      obtain ⟨other, outside⟩ := not_or.1 (mt List.mem_cons.2 outside)
      exact old m ((List.mem_append.1 mem).resolve_right (mt List.mem_singleton.1 other)) outside
    have inner : ∀ m ∈ below, s.Broken sources m :=
      ih (fun m turns => turning m ((turnsBack_cons first).2 (.inr turns))) before
    have here : s.Broken sources n := by
      by_cases found : n ∈ sources
      · exact .emptied found
      · refine .inner fun m child => ?_
        have outside : m ∉ n :: path := fun onPath =>
          found (turning n ((turnsBack_cons first).2 (.inl ⟨rfl, m, child, onPath⟩)))
        exact (List.mem_append.1 (first.covers m child)).elim (fun mem => before m mem outside) (inner m)
    have entered : ∀ m ∈ n :: below, s.Broken sources m := List.forall_mem_cons.2 ⟨here, inner⟩
    have later : ∀ m ∈ behind, s.Broken sources m :=
      ih' (fun m turns => emptied m ((turnsBack_append start second).2 (.inr turns))) fun m mem outside =>
        (List.mem_append.1 mem).elim (fun mem => old m mem outside) (entered m)
    exact fun m mem => (List.mem_append.1 mem).elim (entered m) (later m)

/-- The search from some arrays in turn. -/
theorem backSources_correct (s : Store) (arrays : List ArrayId) :
    (∀ n ∈ s.backSources arrays, s.HoldsItself n) ∧
      ∀ id ∈ arrays, ∀ n, Relation.ReflTransGen s.Child (.array id) n → s.Broken (s.backSources arrays) n := by
  obtain ⟨order, tour, sources⟩ := s.backSources_closes arrays
  have emptied (n : Node) (turns : s.TurnsBack [] [] order n) : n ∈ s.backSources arrays := by
    obtain ⟨_, m, child, back⟩ := turns
    exact (sources n).2 ⟨m, child, back.resolve_left List.not_mem_nil⟩
  refine ⟨fun n mem => ((sources n).1 mem).holdsItself, fun id mem n reaches => ?_⟩
  exact tour.broken emptied nofun n (tour.mem_iff.2 ⟨.array id, List.mem_map_of_mem mem, reaches⟩)

end TinyScript.Store
