import TinyScript.Proofs.Store.Display
import TinyScript.Proofs.Store.Table

namespace TinyScript

/-- The other places of arrays, objects and closures. Different ones have different places. -/
structure Move where
  array : ArrayId → ArrayId
  object : ObjectId → ObjectId
  closure : ClosureId → ClosureId
  array_injective : Function.Injective array
  object_injective : Function.Injective object
  closure_injective : Function.Injective closure

namespace Move

variable {p : Move} {s s' : Store}

/-- The value in its other place. -/
def value (p : Move) : Value → Value
  | .array id => .array (p.array id)
  | .object id => .object (p.object id)
  | .closure id => .closure (p.closure id)
  | v => v

def node (p : Move) : Node → Node
  | .array id => .array (p.array id)
  | .object id => .object (p.object id)
  | .closure id => .closure (p.closure id)
  | .scope id => .scope id

theorem value_injective (p : Move) : Function.Injective p.value := by
  intro v w same
  cases v <;> cases w <;>
    simp_all [value, p.array_injective.eq_iff, p.object_injective.eq_iff, p.closure_injective.eq_iff]

theorem node_injective (p : Move) : Function.Injective p.node := by
  intro n m same
  cases n <;> cases m <;>
    simp_all [node, p.array_injective.eq_iff, p.object_injective.eq_iff, p.closure_injective.eq_iff]

@[simp] theorem kind_value (v : Value) : (p.value v).kind = v.kind := by cases v <;> rfl

@[simp] theorem truthy_value (v : Value) : (p.value v).truthy = v.truthy := by cases v <;> rfl

theorem equals_value (v w : Value) : (p.value v).equals (p.value w) = v.equals w := by
  have same : p.value v = p.value w ↔ v = w := p.value_injective.eq_iff
  cases v <;> cases w <;> simp_all [Value.equals, value]

/-- What stands in the one store stands in the other one in its other place. There may be more in the other one. -/
structure Reads (p : Move) (s s' : Store) : Prop where
  elements : ∀ id, s'.elements (p.array id) = (s.elements id).map p.value
  entries : ∀ id, s'.entries (p.object id) = (s.entries id).map p.value
  functionText : ∀ id, s'.functionText (p.closure id) = s.functionText id
  aggregateCount : s.aggregateCount ≤ s'.aggregateCount

namespace Reads

theorem text (reads : p.Reads s s') (quoted : Bool) (depth : Nat) (ancestors : List Node) (v : Value) :
    s'.text quoted depth (ancestors.map p.node) (p.value v) = s.text quoted depth ancestors v := by
  cases v with
  | closure id =>
    rw [value, Store.text, Store.text]
    exact reads.functionText id
  | array id =>
    cases depth with
    | zero => rfl
    | succ depth =>
      have known : p.node (.array id) ∈ ancestors.map p.node ↔ Node.array id ∈ ancestors :=
        List.mem_map_of_injective p.node_injective
      rw [node] at known
      rw [value, Store.text, Store.text]
      by_cases inside : Node.array id ∈ ancestors
      · rw [if_pos inside, if_pos (known.2 inside)]
      · have deeper (v : Value) := reads.text true depth (.array id :: ancestors) v
        have texts : (s'.elements (p.array id)).toList.map
            (s'.text true depth (.array (p.array id) :: ancestors.map p.node)) =
            (s.elements id).toList.map (s.text true depth (.array id :: ancestors)) := by
          rw [reads.elements id, Array.toList_map, List.map_map]
          exact List.map_congr_left fun v _ => deeper v
        rw [if_neg inside, if_neg fun other => inside (known.1 other), texts]
  | object id =>
    cases depth with
    | zero => rfl
    | succ depth =>
      have known : p.node (.object id) ∈ ancestors.map p.node ↔ Node.object id ∈ ancestors :=
        List.mem_map_of_injective p.node_injective
      rw [node] at known
      rw [value, Store.text, Store.text]
      by_cases inside : Node.object id ∈ ancestors
      · rw [if_pos inside, if_pos (known.2 inside)]
      · have deeper (v : Value) := reads.text true depth (.object id :: ancestors) v
        have texts : (s'.entries (p.object id)).entries.map
            (fun e => e.1 ++ ": " ++ s'.text true depth (.object (p.object id) :: ancestors.map p.node) e.2) =
            (s.entries id).entries.map fun e => e.1 ++ ": " ++ s.text true depth (.object id :: ancestors) e.2 := by
          rw [reads.entries id, Table.map, List.map_map]
          exact List.map_congr_left fun e _ => congrArg (_ ++ ·) (deeper e.2)
        rw [if_neg inside, if_neg fun other => inside (known.1 other), texts]
  | _ => rw [value, Store.text, Store.text] <;> simp

/-- A value reads the same in the other store, although there is more in it. -/
theorem whole_text (reads : p.Reads s s') (quoted : Bool) (v : Value) :
    s'.text quoted (s'.aggregateCount + 1) [] (p.value v) = s.text quoted (s.aggregateCount + 1) [] v := by
  rw [← Store.text_eq_of_lt (Nat.lt_succ_of_le reads.aggregateCount) quoted v]
  exact reads.text quoted _ [] v

theorem display (reads : p.Reads s s') (v : Value) : s'.display (p.value v) = s.display v := reads.whole_text false v

theorem inspect (reads : p.Reads s s') (v : Value) : s'.inspect (p.value v) = s.inspect v := reads.whole_text true v

theorem packed (reads : p.Reads s s') (v : Value) : s'.packed (p.value v) = s.packed v := by
  have same := congrArg Text.packed (reads.display v)
  cases v with
  | string t => rfl
  | _ => exact same

end Reads

end Move

end TinyScript
