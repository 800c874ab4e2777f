import TinyScript.Proofs.Hollow.Scripts

namespace TinyScript

open Evaluation

variable {α : Type} {c : Context}

/-- The runs end alike, in states that are related. -/
inductive Outcome.Agree (R : State → State → Prop) : Outcome α → Outcome α → Prop
  | done {a : α} {st st' : State} : R st st' → Agree R (.done a st) (.done a st')
  | failed {error : RuntimeError} {st st' : State} : R st st' → Agree R (.failed error st) (.failed error st')
  | unfinished : Agree R .unfinished .unfinished

theorem Outcome.Agree.ends {R : State → State → Prop} {o o' : Outcome α} (agree : Outcome.Agree R o o')
    (ends : o' ≠ .unfinished) : o ≠ .unfinished := by
  cases agree with
  | unfinished => exact absurd rfl ends
  | _ => nofun

theorem Outcome.Agree.and {R S T : State → State → Prop} {o o' : Outcome α} (first : Outcome.Agree R o o')
    (second : Outcome.Agree S o o') (both : ∀ st st', R st st' → S st st' → T st st') : Outcome.Agree T o o' := by
  cases first with
  | done related =>
    cases second with
    | done also => exact .done (both _ _ related also)
  | failed related =>
    cases second with
    | failed also => exact .failed (both _ _ related also)
  | unfinished => exact .unfinished

/-- Two runs that do the same without hollow scopes. -/
theorem Seats.Outcomes.agree {R : State → State → Prop} {p q : Seats} {o o' bare : Outcome α}
    (first : p.Outcomes Same o bare) (second : q.Outcomes Same o' bare)
    (related : ∀ r w st st' bare, p.Before r → q.Before w → r.States st bare → w.States st' bare → R st st') :
    Outcome.Agree R o o' := by
  cases first with
  | done before same states =>
    cases same
    cases second with
    | done further same states' =>
      cases same
      exact .done (related _ _ _ _ _ before further states states')
  | failed before states =>
    cases second with
    | failed further states' => exact .failed (related _ _ _ _ _ before further states states')
  | unfinished =>
    cases second
    exact .unfinished

namespace State

/-- The states are the same but for hollow scopes that were not there before: without them both are one state. -/
def Alike (before : Store) (st st' : State) : Prop :=
  ∃ p q bare, (Seats.free before).Before p ∧ (Seats.free before).Before q ∧ p.States st bare ∧ q.States st' bare

variable {before : Store} {st st' : State}

/-- What is done afterwards is the same in states that are alike, and so are the states behind it. -/
theorem Alike.run (alike : Alike before st st') (has : before.Has (.scope c.scope)) (n : Nat) (t : Task) :
    Outcome.Agree (Alike before) (t.run n c st) (t.run n c st') := by
  obtain ⟨p, q, bare, old, old', states, states'⟩ := alike
  have own {p : Seats} (old : (Seats.free before).Before p) : p.Free c.scope c.scope := (Seats.free_free has).mono old
  have first := Seats.run n t (.refl (own old).known) (fun _ => own old) _ _ states
  have second := Seats.run n t (.refl (own old').known) (fun _ => own old') _ _ states'
  exact first.agree second fun r w _ _ bare further further' states states' =>
    ⟨r, w, bare, old.trans further, old'.trans further', states, states'⟩

/-- What can be told of the states behind two runs that began with the same store. -/
structure Indistinct (before : Store) (st st' : State) : Prop where
  printed : st'.printed = st.printed
  latest : st'.latest = st.latest
  arrays : st'.store.arrays = st.store.arrays
  objects : st'.store.objects = st.store.objects
  created : st'.store.created = st.store.created
  closures : st'.store.closures.map (·.literal) = st.store.closures.map (·.literal)
  /-- All variables have the same values, seen from a scope that was there before. -/
  visible : ∀ id, before.Has (.scope id) → ∀ name, st'.store.lookup id name = st.store.lookup id name
  /-- All variables have the same values, seen by a function. -/
  captured : ∀ (id : ClosureId) (f g : Closure), st.store.closures[id]? = some f → st'.store.closures[id]? = some g →
    ∀ name, st'.store.lookup g.scope name = st.store.lookup f.scope name
  /-- Each name leads to the scope that it led to before, if it did: no other variables have become visible. -/
  restored : ∀ id, before.Has (.scope id) → ∀ name,
    st.store.binder? id name = before.binder? id name ∧ st'.store.binder? id name = before.binder? id name
  /-- Whatever is done afterwards is the same. -/
  later : ∀ (n : Nat) (t : Task) (c : Context), before.Has (.scope c.scope) →
    Outcome.Agree (Alike before) (t.run n c st) (t.run n c st')

theorem Alike.indistinct (alike : Alike before st st') (restored : ∀ id, before.Has (.scope id) → ∀ name,
    st.store.binder? id name = before.binder? id name ∧ st'.store.binder? id name = before.binder? id name) :
    Indistinct before st st' := by
  obtain ⟨p, q, bare, old, old', states, states'⟩ := id alike
  have stores := states.store
  have stores' := states'.store
  refine ⟨states'.printed.symm.trans states.printed, states'.latest.symm.trans states.latest,
    stores'.arrays.symm.trans stores.arrays, stores'.objects.symm.trans stores.objects,
    stores'.created.symm.trans stores.created, stores'.literals.symm.trans stores.literals, fun id has name => ?_,
    fun id f g found found' name => ?_, restored, fun n t c has => alike.run has n t⟩
  · have known := (Seats.free_free has).mono old
    have known' := (Seats.free_free has).mono old'
    rw [← stores'.lookup known'.known, stores.lookup known.known]
  · have first := stores.closure? id
    have second := stores'.closure? id
    rw [found] at first
    rw [found'] at second
    obtain ⟨d, there, closures⟩ := exists_of_rel_left first
    obtain ⟨d', there', closures'⟩ := exists_of_rel_left second
    cases there.symm.trans there'
    rw [← stores'.lookup closures'.scope, stores.lookup closures.scope]

end State

end TinyScript
