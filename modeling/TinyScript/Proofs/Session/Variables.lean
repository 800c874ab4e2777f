import TinyScript.Proofs.Session.Scopes
import TinyScript.Proofs.Store.Histories

namespace TinyScript

open Evaluation Store

variable {before : Store} {s : Session} {held : List Value} {region : Node → Prop} {h : History} {store : Store}
  {m : Moment}

namespace Evaluation

variable (context : Context) (line : Nat) (name : Text) (st : State)

theorem variableValue_eq : variableValue context line name st =
    match st.store.lookup context.scope name with
    | some v => .done v st
    | none => .failed ⟨line, .undefinedVariable name⟩ st := by
  rw [variableValue, Run.bind_apply]
  simp only [Run.reading]
  cases st.store.lookup context.scope name <;> rfl

/-- An assignment gives a new value to a name where it is bound, or fails. -/
theorem assignVariable_eq (v : Value) : assignVariable context line name v st =
    match st.store.assign? context.scope name v with
    | some store => .done () { st with store }
    | none => .failed ⟨line, .undefinedVariable name⟩ st := by
  rw [assignVariable, Run.bind_apply]
  simp only [Run.reading, assign?]
  cases st.store.binder? context.scope name <;> rfl

end Evaluation

theorem newGlobals_continues (healthy : store.Healthy region) : Continues store (Session.newGlobals store).2 := by
  have possible : (Operation.create none).Possible store := nofun
  exact (Continues.step possible).trans (Edits.continues (newGlobals_edits store healthy).2)

theorem Session.teardown_continues (s : Session) (held : List Value) : Continues s.store (s.teardown held) := by
  have released : Continues s.store s.released := by
    rw [Session.released, ← Array.foldl_toList]
    exact .clearScopes s.store _
  have emptied := s.released.clearNodes_emptied (s.released.backSources (s.searched held))
  exact (released.trans (.aside emptied.scopes)).trans (.clearScope _ s.globals)

/-- Whatever has been done with a session, there is a history of its scopes. -/
theorem Reached.performed (reached : Reached before s held) : ∃ h, Performed h s.store := by
  induction reached with
  | started callLimit time => exact (newGlobals_continues empty_healthy).performed ⟨[], .start rfl⟩
  | interpreted reached run ih => exact (Edits.continues (reached.sound.interpret_edits run)).performed ih
  | ran reached run ih => exact (Edits.continues (reached.sound.run_edits run)).performed ih
  | got _ _ ih => exact ih
  | looked _ _ _ _ ih => exact ih
  | dropped _ _ ih => exact ih
  | pruned _ _ ih => exact ih.imp fun h performed => performed.aside rfl
  | @reset _ s held reached ih =>
    have forgotten : Continues (s.teardown held) { s.teardown held with created := #[], captured := #[] } := .aside rfl
    have anew := newGlobals_continues reached.sound.teardown_healthy.forget
    exact (((s.teardown_continues held).trans forgotten).trans anew).performed ih

/-- The variables of a moment mean what a history of the scopes says. -/
structure Moment.Lexical (m : Moment) (h : History) : Prop where
  /-- A variable has the value that was last written where its name leads. -/
  value : ∀ line name v, variableValue m.context line name m.state = .done v m.state ↔
    ∃ scope, h.Resolves name m.context.scope scope ∧ h.LastWritten scope name v
  /-- An assignment writes there, and the history goes on with it. -/
  assigned : ∀ line name v scope, h.Resolves name m.context.scope scope → ∃ store,
    assignVariable m.context line name v m.state = .done () { m.state with store } ∧
      m.state.store.Rewritten scope name v store ∧ Performed (.assign m.context.scope name v :: h) store
  /-- A variable whose name leads nowhere is undefined, and stays so when it is assigned to. -/
  undefined : ∀ line name, (∀ scope, ¬ h.Resolves name m.context.scope scope) →
    variableValue m.context line name m.state = .failed ⟨line, .undefinedVariable name⟩ m.state ∧
      ∀ v, assignVariable m.context line name v m.state = .failed ⟨line, .undefinedVariable name⟩ m.state

theorem Store.Performed.moment_lexical (performed : Performed h m.state.store)
    (has : m.state.store.Has (.scope m.context.scope)) : m.Lexical h where
  value line name v := by
    rw [← performed.recorded.lookup_iff, variableValue_eq]
    cases m.state.store.lookup m.context.scope name <;> simp
  assigned line name v scope resolves := by
    have possible : (Operation.assign m.context.scope name v).Possible m.state.store := has
    have found : m.state.store.binder? m.context.scope name = some scope := performed.recorded.resolves_iff.1 resolves
    have after : (Operation.assign m.context.scope name v).after m.state.store = m.state.store.define scope name v :=
      performed.recorded.after_of_writes (.assign resolves)
    refine ⟨m.state.store.define scope name v, by rw [assignVariable_eq, assign?, found]; rfl,
      define_rewritten (performed.recorded.has_of_binds resolves.binds) name v, after ▸ performed.step possible⟩
  undefined line name nowhere := by
    have unknown : m.state.store.lookup m.context.scope name = none := performed.recorded.lookup_none_iff.2 nowhere
    refine ⟨by rw [variableValue_eq, unknown], fun v => ?_⟩
    rw [assignVariable_eq, assign?, lookup_eq_none_iff.1 unknown]
    rfl

/-- Variables are bound lexically in all programs. Whenever a program is run, and whatever it has come to, there is a
history of all scopes by which names lead from the current scope to what they mean. -/
theorem Reached.variables_lexical (reached : Reached before s held) {p : Program} {calls : Nat}
    (within : TinyScript.Within (s.begins p) calls m) : ∃ h, Performed h m.state.store ∧ m.Lexical h := by
  obtain ⟨contained, edits⟩ := (reached.sound.begins p).within within
  obtain ⟨h, performed⟩ := (Edits.continues edits).performed reached.performed
  exact ⟨h, performed, performed.moment_lexical contained.scope.2⟩

end TinyScript
