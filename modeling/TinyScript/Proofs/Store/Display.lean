import TinyScript.Store.Display
import TinyScript.Proofs.Store.Search

namespace TinyScript.Store

variable {s : Store} {ancestors : List Node}

/-- Aggregates that stand inside of each other. -/
structure Nested (s : Store) (ancestors : List Node) : Prop where
  nodup : ancestors.Nodup
  has : ∀ n ∈ ancestors, s.Has n
  isAggregate : ∀ n ∈ ancestors, n.isAggregate

theorem Nested.nil : s.Nested [] := ⟨.nil, by simp, by simp⟩

theorem Nested.cons (nested : s.Nested ancestors) {n : Node} (new : n ∉ ancestors) (has : s.Has n)
    (isAggregate : n.isAggregate) : s.Nested (n :: ancestors) :=
  ⟨List.nodup_cons.2 ⟨new, nested.nodup⟩, List.forall_mem_cons.2 ⟨has, nested.has⟩,
    List.forall_mem_cons.2 ⟨isAggregate, nested.isAggregate⟩⟩

theorem text_succ {depth : Nat} (nested : s.Nested ancestors) (enough : s.aggregateCount < depth + ancestors.length)
    (quoted : Bool) (v : Value) : s.text quoted (depth + 1) ancestors v = s.text quoted depth ancestors v := by
  induction depth generalizing ancestors quoted v with
  | zero =>
    have bound := length_le_aggregateCount nested.nodup nested.has nested.isAggregate
    omega
  | succ depth ih =>
    cases v with
    | array id =>
      by_cases inside : Node.array id ∈ ancestors
      · rw [text, text, if_pos inside, if_pos inside]
      · rw [text, text, if_neg inside, if_neg inside]
        by_cases has : s.Has (.array id)
        · have deeper := ih (nested.cons inside has rfl) (by rw [List.length_cons]; omega)
          have same : s.text true (depth + 1) (.array id :: ancestors) = s.text true depth (.array id :: ancestors) :=
            funext (deeper true)
          rw [same]
        · have none : s.elements id = #[] := by simp [elements, Array.getElem?_eq_none (Nat.not_lt.1 has)]
          rw [none]
          rfl
    | object id =>
      by_cases inside : Node.object id ∈ ancestors
      · rw [text, text, if_pos inside, if_pos inside]
      · rw [text, text, if_neg inside, if_neg inside]
        by_cases has : s.Has (.object id)
        · have deeper := ih (nested.cons inside has rfl) (by rw [List.length_cons]; omega)
          have same : s.text true (depth + 1) (.object id :: ancestors) = s.text true depth (.object id :: ancestors) :=
            funext (deeper true)
          rw [same]
        · have none : s.entries id = .empty := by simp [entries, Array.getElem?_eq_none (Nat.not_lt.1 has)]
          rw [none]
          rfl
    | _ => rw [text, text]

/-- Every depth above the number of aggregates is enough. -/
theorem text_eq_of_lt {depth : Nat} (enough : s.aggregateCount < depth) (quoted : Bool) (v : Value) :
    s.text quoted depth [] v = s.text quoted (s.aggregateCount + 1) [] v := by
  induction depth, enough using Nat.le_induction with
  | base => rfl
  | succ depth enough ih => rw [text_succ .nil enough, ih]

/-- Two stores have the same in a part that nothing leads out of. -/
structure Agrees (inside : Node → Prop) (s s' : Store) : Prop where
  closed : ∀ n m, inside n → s.Refers n m → inside m
  elements : ∀ id, inside (.array id) → s'.elements id = s.elements id
  entries : ∀ id, inside (.object id) → s'.entries id = s.entries id
  functionText : ∀ id, inside (.closure id) → s'.functionText id = s.functionText id

variable {s' : Store} {inside : Node → Prop} {v : Value}

theorem Agrees.text (agrees : Agrees inside s s') (known : ∀ n, v.node? = some n → inside n) (quoted : Bool)
    (depth : Nat) (ancestors : List Node) : s'.text quoted depth ancestors v = s.text quoted depth ancestors v := by
  induction depth generalizing quoted ancestors v with
  | zero =>
    cases v with
    | closure id =>
      rw [Store.text, Store.text]
      exact agrees.functionText id (known _ rfl)
    | _ => rw [Store.text, Store.text]
  | succ depth ih =>
    cases v with
    | closure id =>
      rw [Store.text, Store.text]
      exact agrees.functionText id (known _ rfl)
    | array id =>
      have here := known _ rfl
      have deeper (w : Value) (mem : w ∈ (s.elements id).toList) (ancestors : List Node) :
          s'.text true depth ancestors w = s.text true depth ancestors w :=
        ih (fun n node => agrees.closed _ n here (List.mem_filterMap.2 ⟨w, mem, node⟩)) true ancestors
      rw [Store.text, Store.text, agrees.elements id here]
      dsimp only
      rw [List.map_congr_left fun w mem => deeper w mem _]
    | object id =>
      have here := known _ rfl
      have deeper (e : Text × Value) (mem : e ∈ (s.entries id).entries) (ancestors : List Node) :
          s'.text true depth ancestors e.2 = s.text true depth ancestors e.2 :=
        ih (fun n node => agrees.closed _ n here
          (List.mem_filterMap.2 ⟨e.2, List.mem_map_of_mem mem, node⟩)) true ancestors
      rw [Store.text, Store.text, agrees.entries id here]
      dsimp only
      rw [List.map_congr_left fun e mem => congrArg ((e.1 ++ (": " : Text)) ++ ·) (deeper e mem _)]
    | _ => rw [Store.text, Store.text]

theorem Agrees.whole_text (agrees : Agrees inside s s') (more : s.aggregateCount ≤ s'.aggregateCount)
    (known : ∀ n, v.node? = some n → inside n) (quoted : Bool) :
    s'.text quoted (s'.aggregateCount + 1) [] v = s.text quoted (s.aggregateCount + 1) [] v := by
  rw [agrees.text known, text_eq_of_lt (Nat.lt_succ_of_le more)]

end TinyScript.Store
