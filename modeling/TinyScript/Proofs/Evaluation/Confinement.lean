import TinyScript.Evaluation
import TinyScript.Proofs.Store.Edits

namespace TinyScript

open Store

variable {α β : Type} {region : Node → Prop}

/-- A state from which a program can run inside of a region. -/
structure Ready (region : Node → Prop) (st : State) : Prop where
  healthy : st.store.Healthy region
  latest : st.store.Fits region st.latest

/-- The state behind a run is ready, what the run yields is as described, and the store has only been edited. -/
def Outcome.Stays (region : Node → Prop) (s : Store) (P : Store → α → Prop) : Outcome α → Prop
  | done a st => Ready region st ∧ Edits region s st.store ∧ P st.store a
  | failed _ st => Ready region st ∧ Edits region s st.store
  | unfinished => True

/-- From a state that is ready a run stays in the region. -/
def Confined (region : Node → Prop) (st : State) (P : Store → α → Prop) (x : Run α) : Prop :=
  Ready region st → (x st).Stays region st.store P

theorem Outcome.Stays.trans {s s' : Store} {P : Store → α → Prop} {o : Outcome α} (stays : o.Stays region s' P)
    (edits : Edits region s s') : o.Stays region s P := by
  cases o with
  | done a st => exact ⟨stays.1, edits.trans stays.2.1, stays.2.2⟩
  | failed error st => exact ⟨stays.1, edits.trans stays.2⟩
  | unfinished => trivial

namespace Confined

variable {st : State} {P : Store → α → Prop} {Q : Store → β → Prop} {x : Run α} {y : Run β} {f : α → Run β}

theorem bind (first : Confined region st P x)
    (later : ∀ a st', Edits region st.store st'.store → P st'.store a → Confined region st' Q (f a)) :
    Confined region st Q (x >>= f) := by
  intro ready
  have first := first ready
  rw [Run.bind_apply]
  cases run : x st with
  | done a st' =>
    rw [run] at first
    obtain ⟨ready', edits, holds⟩ := first
    exact (later a st' edits holds ready').trans edits
  | failed error st' =>
    rw [run] at first
    exact first
  | unfinished => trivial

theorem pure {b : β} (holds : Q st.store b) : Confined region st Q (Pure.pure b) :=
  fun ready => ⟨ready, .refl, holds⟩

theorem fail {line : Nat} {fault : Fault} : Confined region st Q (Run.fail line fault) :=
  fun ready => ⟨ready, .refl⟩

/-- What is ready may be used. -/
theorem of_healthy (confined : st.store.Healthy region → Confined region st Q y) : Confined region st Q y :=
  fun ready => confined ready.healthy ready

theorem reading {g : Store → β} (holds : Q st.store (g st.store)) : Confined region st Q (Run.reading g) :=
  fun ready => ⟨ready, .refl, holds⟩

theorem print {t : Text} {Q : Store → Unit → Prop} (holds : Q st.store ()) : Confined region st Q (Run.print t) :=
  fun ready => ⟨⟨ready.healthy, ready.latest⟩, .refl, holds⟩

theorem keep {v : Value} {Q : Store → Unit → Prop} (fits : st.store.Fits region v) (holds : Q st.store ()) :
    Confined region st Q (Run.keep v) :=
  fun ready => ⟨⟨ready.healthy, fits⟩, .refl, holds⟩

theorem creating {g : Store → β × Store} (edits : Edits region st.store (g st.store).2)
    (holds : Q (g st.store).2 (g st.store).1) : Confined region st Q (Run.creating g) :=
  fun ready => ⟨⟨edits.healthy ready.healthy, ready.latest.mono edits.has⟩, edits, holds⟩

theorem changing {g : Store → Store} {Q : Store → Unit → Prop} (edits : Edits region st.store (g st.store))
    (holds : Q (g st.store) ()) : Confined region st Q (Run.changing g) :=
  fun ready => ⟨⟨edits.healthy ready.healthy, ready.latest.mono edits.has⟩, edits, holds⟩

theorem newArray {elements : Array Value} (fits : ∀ v ∈ elements.toList, st.store.Fits region v) :
    Confined region st (fun s id => s.Fits region (.array id)) (.creating (·.newArray elements)) :=
  of_healthy fun healthy => creating (.single (.newArray fits)) (newArray_fits healthy elements)

theorem newObject {entries : Table Value} (fits : ∀ v ∈ entries.values, st.store.Fits region v) :
    Confined region st (fun s id => s.Fits region (.object id)) (.creating (·.newObject entries)) :=
  of_healthy fun healthy => creating (.single (.newObject fits)) (newObject_fits healthy entries)

theorem newClosure (literal : FunctionLiteral) {scope : ScopeId} (within : st.store.Within region (.scope scope)) :
    Confined region st (fun s id => s.Fits region (.closure id)) (.creating (·.newClosure literal scope)) :=
  of_healthy fun healthy => creating (.single (.newClosure within)) (newClosure_fits healthy literal scope)

/-- A new scope is in the next free place. -/
theorem newScope {outer : ScopeId} (within : st.store.Within region (.scope outer)) :
    Confined region st (fun s id => id = st.store.scopes.size ∧ s.Within region (.scope id))
      (.creating (·.newScope (some outer))) :=
  of_healthy fun healthy => creating (.single (.newScope within)) ⟨rfl, newScope_within healthy (some outer)⟩

theorem append {id : ArrayId} {v : Value} (inside : region (.array id)) (fits : st.store.Fits region v)
    {Q : Store → Unit → Prop} (holds : ∀ s, Edits region st.store s → Q s ()) :
    Confined region st Q (.changing (·.append id v)) :=
  have edits : Edits region st.store (st.store.append id v) := .single (.append inside fits)
  changing edits (holds _ edits)

theorem define {id : ScopeId} {v : Value} (inside : region (.scope id)) (name : Text) (fits : st.store.Fits region v)
    {Q : Store → Unit → Prop} (holds : ∀ s, Edits region st.store s → Q s ()) :
    Confined region st Q (.changing (·.define id name v)) :=
  have edits : Edits region st.store (st.store.define id name v) := .single (.define inside fits)
  changing edits (holds _ edits)

/-- A value that is worked out from a value and has no place in the store. -/
theorem value {v : Value} (none : v.node? = none) : Confined region st (Fits region) (Pure.pure v) :=
  pure (.of_node?_eq_none none)

end Confined

open Confined

variable {st : State} {context : Context} {line : Nat} {name : Text} {v w : Value} {literal : FunctionLiteral}

theorem BinaryOperator.onNumbers_node? (op : BinaryOperator) (a b : Float) : (op.onNumbers a b).node? = none := by
  cases op <;> rfl

theorem BinaryOperator.apply_confined (op : BinaryOperator) (line : Nat) (v w : Value) :
    Confined region st (Fits region) (op.apply line v w) := by
  unfold BinaryOperator.apply
  split
  · exact value rfl
  · exact value rfl
  · exact value (onNumbers_node? _ _ _)
  · exact (reading (Q := fun _ _ => True) trivial).bind fun _ _ _ _ => value rfl
  · exact (reading (Q := fun _ _ => True) trivial).bind fun _ _ _ _ => value rfl
  · exact fail

theorem UnaryOperator.apply_confined (op : UnaryOperator) (line : Nat) (v : Value) :
    Confined region st (Fits region) (op.apply line v) := by
  unfold UnaryOperator.apply
  split
  · exact value rfl
  · exact value rfl
  · exact fail

namespace Store

variable {s : Store}

/-- What may be there fits when what is there does. -/
theorem Fits.getD {o : Option Value} (fits : ∀ v, o = some v → s.Fits region v) : s.Fits region (o.getD .null) := by
  cases o with
  | none => exact .of_node?_eq_none rfl
  | some v => exact fits v rfl

theorem getElem?_fits (healthy : s.Healthy region) {id : ArrayId} (inside : region (.array id)) {k : Nat}
    (found : (s.elements id)[k]? = some v) : s.Fits region v := by
  refine elements_fits healthy inside ?_
  obtain ⟨lower, same⟩ := Array.getElem?_eq_some_iff.1 found
  exact same ▸ Array.getElem_mem_toList lower

end Store

theorem singleton_fits {s : Store} (o : Option UInt8) :
    s.Fits region (o.elim .null fun b => .string (.singleton b)) := by
  cases o <;> exact .of_node?_eq_none rfl

theorem Value.at_confined (fits : st.store.Fits region v) (w : Value) :
    Confined region st (Fits region) (v.at line w) := by
  unfold Value.at
  split
  · next id i =>
    refine of_healthy fun healthy => reading (Fits.getD fun e found => ?_)
    obtain ⟨k, -, found⟩ := Option.bind_eq_some_iff.1 found
    exact getElem?_fits healthy (fits _ rfl).1 found
  · exact pure (singleton_fits _)
  · next id key =>
    refine of_healthy fun healthy => reading (Fits.getD fun e found => ?_)
    exact entries_fits healthy (fits _ rfl).1 (Table.mem_values_of_get? found)
  · exact fail
  · exact fail

theorem Builtin.body_confined (which : Builtin) (time : Float) (line : Nat) {arguments : List Value}
    (fits : ∀ v ∈ arguments, st.store.Fits region v) :
    Confined region st (Fits region) (which.body time line arguments) := by
  unfold Builtin.body
  split
  · exact (reading (Q := fun _ _ => True) trivial).bind fun _ _ _ _ =>
      (Confined.print (Q := fun _ _ => True) trivial).bind fun _ _ _ _ => value rfl
  · exact (reading (Q := fun _ _ => True) trivial).bind fun _ _ _ _ =>
      (Confined.print (Q := fun _ _ => True) trivial).bind fun _ _ _ _ => value rfl
  · exact value rfl
  · exact reading (.of_node?_eq_none rfl)
  · exact reading (.of_node?_eq_none rfl)
  · exact pure (singleton_fits _)
  · next id =>
    have inside := (fits _ List.mem_cons_self _ rfl).1
    exact of_healthy fun healthy => reading (Fits.getD fun e found => getElem?_fits healthy inside found)
  · exact pure (singleton_fits _)
  · next id =>
    have inside := (fits _ List.mem_cons_self _ rfl).1
    refine of_healthy fun healthy => reading (Fits.getD fun e found => ?_)
    rw [Array.back?_eq_getElem?] at found
    exact getElem?_fits healthy inside found
  · split
    · exact value rfl
    · exact value rfl
  · next id =>
    have inside := (fits _ List.mem_cons_self _ rfl).1
    refine of_healthy fun healthy => (reading (Q := fun s es => ∀ v ∈ es.toList, s.Fits region v)
      fun v mem => elements_fits healthy inside mem).bind fun elements _ _ fits => ?_
    split
    · exact value rfl
    · refine (newArray fun v mem => fits v ?_).bind fun id _ _ fits => pure fits
      rw [Array.toList_extract] at mem
      exact List.mem_of_mem_drop (List.mem_of_mem_take mem)
  · next id v =>
    have inside := (fits _ List.mem_cons_self _ rfl).1
    have array := fits _ List.mem_cons_self
    refine (append (Q := fun s _ => s.Fits region (.array id)) inside (fits v (by simp)) fun s edits =>
      array.mono edits.has).bind fun _ _ _ fits => pure fits
  · exact value rfl
  · exact reading (.of_node?_eq_none rfl)
  · exact value rfl
  · exact fail
  · exact value rfl

theorem Builtin.apply_confined (which : Builtin) (time : Float) (line : Nat) {arguments : List Value}
    (fits : ∀ v ∈ arguments, st.store.Fits region v) :
    Confined region st (Fits region) (which.apply time line arguments) := by
  unfold Builtin.apply
  split
  · exact body_confined which time line fits
  · split
    · exact body_confined which time line fits
    · exact fail

end TinyScript
