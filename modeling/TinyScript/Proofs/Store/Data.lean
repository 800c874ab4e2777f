import TinyScript.Proofs.Number.Signed
import TinyScript.Proofs.Store.Drawing
import TinyScript.Proofs.Store.Extension

namespace TinyScript.Store

variable {s s' s'' : Store} {v w : Value} {id : ArrayId}

/-- The value is made of null, booleans, texts and finite numbers that are not too small, in arrays. -/
inductive Data (s : Store) : Value → Prop
  | null : Data s .null
  | boolean (value : Bool) : Data s (.boolean value)
  | number {x : Float} : x.isFinite → ZeroOrNormal x → Data s (.number x)
  | string (value : Packed) : Data s (.string value)
  | array {id : ArrayId} : (∀ v ∈ s.elements id, Data s v) → Data s (.array id)

/-- In the second store the second value has the shape of the first value, with the same booleans, texts and numbers. -/
inductive SameData (s s' : Store) : Value → Value → Prop
  | null : SameData s s' .null .null
  | boolean (value : Bool) : SameData s s' (.boolean value) (.boolean value)
  | number (x : Float) : SameData s s' (.number x) (.number (unsignedZero x))
  | string (value : Packed) : SameData s s' (.string value) (.string value)
  | array {i j : ArrayId} : s'.Has (.array j) → (s'.elements j).size = (s.elements i).size →
      (∀ (k : Nat) v w, (s.elements i)[k]? = some v → (s'.elements j)[k]? = some w → SameData s s' v w) →
      SameData s s' (.array i) (.array j)

/-- What has been made stays the same when the store grows. -/
theorem SameData.mono (same : SameData s s' v w) (grown : s'.Extends s'') : SameData s s'' v w := by
  induction same with
  | null => exact .null
  | boolean value => exact .boolean value
  | number x => exact .number x
  | string value => exact .string value
  | @array i j has sizes elements ih =>
    refine .array (grown.has has) ?_ ?_
    · rw [grown.elements has, sizes]
    · rw [grown.elements has]
      exact ih

/-- A new array of the same data. -/
theorem SameData.newArray {ws : List Value} (same : List.Forall₂ (SameData s s') (s.elements id).toList ws) :
    SameData s (s'.newArray ws.toArray).2 (.array id) (.array (s'.newArray ws.toArray).1) := by
  obtain ⟨lengths, each⟩ := List.forall₂_iff_get.1 same
  refine .array (by simp [Store.newArray, Has]) ?_ fun k v w first second => ?_
  · rw [elements_newArray]
    exact lengths.symm
  · rw [elements_newArray, List.getElem?_toArray] at second
    rw [← Array.getElem?_toList] at first
    obtain ⟨inside, rfl⟩ := List.getElem?_eq_some_iff.1 first
    obtain ⟨inside', rfl⟩ := List.getElem?_eq_some_iff.1 second
    exact (each k inside inside').mono (.newArray _ _)

theorem Data.broken (data : s.Data v) : ∀ n, v.aggregate? = some n → s.Broken [] n := by
  induction data with
  | null | boolean | number | string => exact fun n node => by cases node
  | @array id _ ih =>
    rintro n ⟨⟩
    refine .inner fun m child => ?_
    obtain ⟨w, held, node⟩ := held_of_child child
    exact ih w (Array.mem_toList_iff.1 held) m node

/-- The text of an array shows its elements, with commas between them. -/
theorem Data.inspect_array (data : s.Data (.array id)) :
    s.inspect (.array id) = "[" ++ Text.join ", " ((s.elements id).toList.map s.inspect) ++ "]" :=
  text_eq_framed (n := .array id) rfl (not_leadsToCycle data.broken) true (Nat.lt_succ_self _)

end TinyScript.Store
