import TinyScript.Evaluation.Builtins
import TinyScript.Evaluation.Operators
import TinyScript.Proofs.Evaluation.Purity
import TinyScript.Proofs.Number.Whole

namespace TinyScript

variable {s : Store} {st st' : State} {x y i v : Value} {xs : List Value} {k line : Nat} {time : Float}

/-- What an array holds, or the bytes of a text, each as a text of its own. -/
def Store.listed? (s : Store) : Value → Option (List Value)
  | .array id => some (s.elements id).toList
  | .string t => some (t.text.map fun b => .string (.singleton b))
  | _ => none

/-- The value is a number that is equal to the natural number. -/
def Value.Names (i : Value) (k : Nat) : Prop := ∃ d, i = .number d ∧ (Exact.ofFloat d).Equals k

theorem Value.position?_eq_some_iff : i.position? = some k ↔ i.Names k := by
  constructor
  · intro found
    cases i with
    | number d => exact ⟨d, rfl, Exact.toNat?_eq_some_iff.1 found⟩
    | _ => cases found
  · rintro ⟨d, rfl, equals⟩
    exact Exact.toNat?_eq_some_iff.2 equals

theorem Value.position?_eq_none (nowhere : ∀ k, ¬ i.Names k) : i.position? = none :=
  Option.eq_none_iff_forall_ne_some.2 fun k found => nowhere k (position?_eq_some_iff.1 found)

/-- The byte at a place as a value, which is the element there. -/
theorem byteValue_eq (t : Packed) (k : Nat) : (t.get? k).elim Value.null (fun b => .string (.singleton b)) =
    ((t.text.map fun b => Value.string (.singleton b))[k]?).getD .null := by
  rw [List.getElem?_map, Packed.get?_eq]
  cases t.text[k]? <;> rfl

/-- Indexing a sequence is indexing its list. -/
theorem at_listed (listed : st.store.listed? x = some xs) (line : Nat) (i : Value) :
    x.at line i st = .done ((i.position?.bind (xs[·]?)).getD .null) st := by
  cases x with
  | array id =>
    cases listed
    show Outcome.done ((i.position?.bind fun k => (st.store.elements id)[k]?).getD .null) st = _
    simp only [Array.getElem?_toList]
  | string t =>
    cases listed
    show Outcome.done ((i.position?.bind t.get?).elim Value.null fun b => .string (.singleton b)) st = _
    cases i.position? with
    | none => rfl
    | some k => rw [Option.bind_some, Option.bind_some, byteValue_eq]
  | _ => cases listed

theorem len_listed (listed : st.store.listed? x = some xs) (time : Float) (line : Nat) :
    Builtin.len.apply time line [x] st = .done (.number (Exact.ofNat xs.length)) st := by
  cases x with
  | array id =>
    cases listed
    rfl
  | string t =>
    cases listed
    show Outcome.done (Value.number (Exact.ofNat t.size)) st = _
    rw [List.length_map, Packed.length_text]
  | _ => cases listed

theorem first_listed (listed : st.store.listed? x = some xs) (time : Float) (line : Nat) :
    Builtin.first.apply time line [x] st = .done (xs[0]?.getD .null) st := by
  cases x with
  | array id =>
    cases listed
    show Outcome.done ((st.store.elements id)[0]?.getD .null) st = _
    rw [Array.getElem?_toList]
  | string t =>
    cases listed
    show Outcome.done ((t.get? 0).elim Value.null fun b => .string (.singleton b)) st = _
    rw [byteValue_eq]
  | _ => cases listed

theorem last_listed (listed : st.store.listed? x = some xs) (time : Float) (line : Nat) :
    Builtin.last.apply time line [x] st = .done (xs[xs.length - 1]?.getD .null) st := by
  cases x with
  | array id =>
    cases listed
    show Outcome.done ((st.store.elements id)[(st.store.elements id).size - 1]?.getD .null) st = _
    rw [Array.getElem?_toList, Array.length_toList]
  | string t =>
    cases listed
    show Outcome.done ((t.get? (t.size - 1)).elim Value.null fun b => .string (.singleton b)) st = _
    rw [byteValue_eq, List.length_map, Packed.length_text]
  | _ => cases listed

theorem listed?_append {id : ArrayId} (known : s.Has (.array id)) (v : Value) :
    (s.append id v).listed? (.array id) = (s.listed? (.array id)).map (· ++ [v]) := by
  have there : s.arrays[id]? = some s.arrays[id] := Array.getElem?_eq_getElem known
  have elements : (s.append id v).elements id = (s.elements id).push v := by
    simp [Store.elements, Store.append, Array.getElem?_modify, there]
  show some ((s.append id v).elements id).toList = some ((s.elements id).toList ++ [v])
  rw [elements, Array.toList_push]

theorem listed?_append_other {id : ArrayId} (other : y ≠ .array id) (v : Value) :
    (s.append id v).listed? y = s.listed? y := by
  cases y with
  | array j =>
    have other : ¬ id = j := fun same => other (same ▸ rfl)
    have elements : (s.append id v).elements j = s.elements j := by
      simp [Store.elements, Store.append, Array.getElem?_modify, other]
    exact congrArg (fun elements => some elements.toList) elements
  | _ => rfl

/-- A value is put behind the elements of the array, and all other sequences are as they were. -/
theorem push_listed {id : ArrayId} (known : st.store.Has (.array id)) (time : Float) (line : Nat) (v : Value) :
    ∃ st', Builtin.push.apply time line [.array id, v] st = .done (.array id) st' ∧
      st'.store.listed? (.array id) = (st.store.listed? (.array id)).map (· ++ [v]) ∧
      ∀ y, y ≠ .array id → st'.store.listed? y = st.store.listed? y :=
  ⟨{ st with store := st.store.append id v }, rfl, listed?_append known v, fun _ other => listed?_append_other other v⟩

/-- Values are pushed onto others, one after the other, until that fails. -/
def pushes (time : Float) (line : Nat) : List (Value × Value) → Run Unit
  | [] => pure ()
  | (x, v) :: more => do
    let _ ← Builtin.push.apply time line [x, v]
    pushes time line more

/-- Pushing changes no sequence but the one that is pushed onto. -/
theorem push_other (other : x ≠ y) (ends : (Builtin.push.apply time line [x, v] st).state? = some st') :
    st'.store.listed? y = st.store.listed? y := by
  cases x with
  | array id =>
    cases ends
    exact listed?_append_other (Ne.symm other) v
  | _ =>
    cases ends
    rfl

/-- However often other values are pushed onto, a sequence stays as it is. -/
theorem pushes_other {ps : List (Value × Value)} (others : ∀ p ∈ ps, p.1 ≠ y)
    (ends : (pushes time line ps st).state? = some st') : st'.store.listed? y = st.store.listed? y := by
  induction ps generalizing st with
  | nil =>
    cases ends
    rfl
  | cons p ps ih =>
    obtain ⟨here, later⟩ := List.forall_mem_cons.1 others
    change ((Builtin.push.apply time line [p.1, p.2] >>= fun _ => pushes time line ps) st).state? = _ at ends
    rw [Run.bind_apply] at ends
    cases run : Builtin.push.apply time line [p.1, p.2] st with
    | done r between =>
      rw [run] at ends
      exact (ih later ends).trans (push_other here (by rw [run]; rfl))
    | failed error between =>
      rw [run] at ends
      cases ends
      exact push_other here (by rw [run]; rfl)
    | unfinished =>
      rw [run] at ends
      cases ends

/-- The rest of a sequence is a text or a new array. Whatever was there before is as it was. -/
theorem rest_listed (listed : st.store.listed? x = some xs) (known : st.store.Knows x) (some : xs ≠ []) (time : Float)
    (line : Nat) : ∃ r st', Builtin.rest.apply time line [x] st = .done r st' ∧ st.Untouched st' ∧
      st'.store.listed? r = .some xs.tail ∧ st'.store.listed? x = .some xs ∧
      ∀ id, r = .array id → ¬ st.store.Has (.array id) := by
  cases x with
  | array id =>
    cases listed
    let elements := st.store.elements id
    have full : ¬ elements.isEmpty := by simpa [elements] using some
    let s := st.store.newArray (elements.extract 1 elements.size)
    have grown : st.store.Extends s.2 := .newArray _ _
    refine ⟨.array s.1, { st with store := s.2 }, ?_, ⟨grown, rfl⟩, ?_, ?_, ?_⟩
    · show (if elements.isEmpty then pure Value.null
        else do return .array (← .creating (·.newArray (elements.extract 1 elements.size))) : Run Value) st = _
      rw [if_neg full]
      rfl
    · show Option.some (s.2.elements s.1).toList = _
      rw [Store.elements_newArray, Array.toList_extract, List.extract_eq_drop_take', Array.size, List.take_length,
        List.drop_one]
    · exact congrArg (fun elements => Option.some elements.toList) (grown.elements (known _ rfl))
    · rintro _ ⟨⟩
      exact Nat.lt_irrefl _
  | string t =>
    cases listed
    refine ⟨.string t.tail, st, ?_, .refl st, ?_, rfl, by rintro id ⟨⟩⟩
    · have full : t.size ≠ 0 := fun none => some (List.map_eq_nil_iff.2 (List.length_eq_zero_iff.1 none))
      show Outcome.done (if t.size = 0 then Value.null else .string t.tail) st = _
      rw [if_neg full]
    · simp [Store.listed?, List.map_tail]
  | _ => cases listed

theorem rest_listed_nil (listed : st.store.listed? x = some []) (time : Float) (line : Nat) :
    Builtin.rest.apply time line [x] st = .done .null st := by
  cases x with
  | array id =>
    have none : (st.store.elements id).isEmpty := by simpa [Store.listed?] using listed
    show (if (st.store.elements id).isEmpty then pure Value.null
      else do return .array (← .creating (·.newArray _)) : Run Value) st = _
    rw [if_pos none]
    rfl
  | string t =>
    have none : t.size = 0 := by
      rw [← Packed.length_text, ← List.length_map]
      exact congrArg List.length (Option.some.inj listed)
    show Outcome.done (if t.size = 0 then Value.null else .string t.tail) st = _
    rw [if_pos none]
  | _ => cases listed

/-- What indexing and the builtins do with a sequence, as if it were the list. -/
structure Value.ListLike (x : Value) (xs : List Value) (st : State) : Prop where
  /-- A number that is equal to a natural number yields the element there, or null behind the last element. -/
  index : ∀ line i k, i.Names k → x.at line i st = .done (xs[k]?.getD .null) st
  /-- For every other number and for what is not a number there is no element. -/
  nowhere : ∀ line i, (∀ k, ¬ i.Names k) → x.at line i st = .done .null st
  len : ∀ time line, Builtin.len.apply time line [x] st = .done (.number (Exact.ofNat xs.length)) st
  lenExact : xs.length ≤ 2 ^ 53 → (Value.number (Exact.ofNat xs.length)).Names xs.length
  first : ∀ time line, Builtin.first.apply time line [x] st = .done (xs[0]?.getD .null) st
  last : ∀ time line, Builtin.last.apply time line [x] st = .done (xs[xs.length - 1]?.getD .null) st
  restNil : xs = [] → ∀ time line, Builtin.rest.apply time line [x] st = .done .null st
  /-- The rest has the elements behind the first one and is apart: it is a text or a new array, and what is pushed onto
  the one later, under whichever name, is not seen in the other. -/
  rest : xs ≠ [] → ∀ time line, ∃ r st', Builtin.rest.apply time line [x] st = .done r st' ∧ st.Untouched st' ∧
    st'.store.listed? r = some xs.tail ∧ st'.store.listed? x = some xs ∧
    r ≠ x ∧ (∀ id, r = .array id → ¬ st.store.Has (.array id)) ∧
    ∀ time line ps st'', (pushes time line ps st').state? = some st'' →
      ((∀ p ∈ ps, p.1 ≠ r) → st''.store.listed? r = some xs.tail) ∧
      ((∀ p ∈ ps, p.1 ≠ x) → st''.store.listed? x = some xs)
  /-- Pushing yields the array itself, with the value behind its elements. The value may be the array. -/
  push : ∀ id, x = .array id → ∀ time line v, ∃ st', Builtin.push.apply time line [x, v] st = .done x st' ∧
    st'.store.listed? x = some (xs ++ [v]) ∧ ∀ y, y ≠ x → st'.store.listed? y = st.store.listed? y

/-- Arrays and texts behave as lists. -/
theorem Value.listLike (listed : st.store.listed? x = some xs) (known : st.store.Knows x) : x.ListLike xs st where
  index line i k names := by
    rw [at_listed listed, position?_eq_some_iff.2 names, Option.bind_some]
  nowhere line i nowhere := by
    rw [at_listed listed, position?_eq_none nowhere, Option.bind_none, Option.getD_none]
  len := len_listed listed
  lenExact small := ⟨_, rfl, Exact.equals_ofNat small⟩
  first := first_listed listed
  last := last_listed listed
  restNil none := rest_listed_nil (none ▸ listed)
  rest some time line := by
    obtain ⟨r, st', run, untouched, tail, same, new⟩ := rest_listed listed known some time line
    have apart : r ≠ x := by
      rintro rfl
      have shorter : xs.tail = xs := Option.some.inj (tail.symm.trans same)
      cases xs with
      | nil => exact some rfl
      | cons v vs => exact List.cons_ne_self v vs shorter.symm
    exact ⟨r, st', run, untouched, tail, same, apart, new, fun time line ps st'' ends =>
      ⟨fun others => (pushes_other others ends).trans tail, fun others => (pushes_other others ends).trans same⟩⟩
  push := by
    rintro id rfl time line v
    obtain ⟨st', run, longer, others⟩ := push_listed (known _ rfl) time line v
    exact ⟨st', run, by rw [longer, listed, Option.map_some], others⟩

/-- An array that is pushed onto itself, and read at minus zero. -/
theorem Value.listLike_itself : ∃ st : State, (Value.array 0).ListLike [.boolean true, .null] st ∧
    (Value.array 0).at 1 (.number (-0)) st = .done (.boolean true) st ∧
    ∃ st', Builtin.push.apply 0 1 [.array 0, .array 0] st = .done (.array 0) st' ∧
      st'.store.listed? (.array 0) = some [.boolean true, .null, .array 0] := by
  let st : State := ⟨(Store.empty.newArray #[.boolean true, .null]).2, #[], .null⟩
  have known : st.store.Knows (.array 0) := by
    rintro n ⟨⟩
    exact Nat.one_pos
  have laws : (Value.array 0).ListLike [.boolean true, .null] st := Value.listLike rfl known
  have zero : (Value.number (-0)).Names 0 := position?_eq_some_iff.1 (by decide +kernel)
  obtain ⟨st', run, longer, -⟩ := laws.push 0 rfl 0 1 (.array 0)
  exact ⟨st, laws, laws.index 1 _ 0 zero, st', run, longer⟩

end TinyScript
