import TinyScript.Proofs.Store.Lookup

namespace TinyScript.Store

/-- Something done to the scopes of a store, or asked of them. -/
inductive Operation where
  | create (outer : Option ScopeId)
  | bind (scope : ScopeId) (name : Text) (v : Value)
  | assign (scope : ScopeId) (name : Text) (v : Value)
  | look (scope : ScopeId) (name : Text)
  | forget (scope : ScopeId)

/-- The scopes that an operation names exist. -/
def Operation.Possible (s : Store) : Operation → Prop
  | create outer => ∀ id ∈ outer, s.Has (.scope id)
  | bind scope _ _ | assign scope _ _ | look scope _ | forget scope => s.Has (.scope scope)

instance (s : Store) : (op : Operation) → Decidable (op.Possible s)
  | .create outer => inferInstanceAs (Decidable (∀ id ∈ outer, id < s.scopes.size))
  | .bind scope _ _ | .assign scope _ _ | .look scope _ | .forget scope =>
    inferInstanceAs (Decidable (scope < s.scopes.size))

/-- The store after an operation. -/
def Operation.after (s : Store) : Operation → Store
  | create outer => (s.newScope outer).2
  | bind scope name v => s.define scope name v
  | assign scope name v => (s.assign? scope name v).getD s
  | look _ _ => s
  | forget scope => s.clearScope scope

/-- All that was done, the latest first. -/
abbrev History := List Operation

namespace History

/-- In what each scope was made, the oldest scope first. -/
def creations : History → List (Option ScopeId)
  | [] => []
  | .create outer :: earlier => creations earlier ++ [outer]
  | _ :: earlier => creations earlier

/-- A scope was made in another one. -/
def LiesIn (h : History) (id outer : ScopeId) : Prop := h.creations[id]? = some (some outer)

/-- A name has been bound in a scope that has not forgotten its names since. -/
def Binds (h : History) (id : ScopeId) (name : Text) : Prop :=
  ∃ (later : History) (v : Value) (earlier : History),
    h = later ++ .bind id name v :: earlier ∧ Operation.forget id ∉ later

/-- From one scope outwards the other is the first that binds the name. -/
inductive Resolves (h : History) (name : Text) : ScopeId → ScopeId → Prop
  | here {id : ScopeId} : h.Binds id name → Resolves h name id id
  | outer {id outer found : ScopeId} : ¬ h.Binds id name → h.LiesIn id outer → Resolves h name outer found →
    Resolves h name id found

/-- After a history an operation writes a value to what a scope binds a name to. -/
inductive Writes (h : History) : Operation → ScopeId → Text → Value → Prop
  | bind {id : ScopeId} {name : Text} {v : Value} : Writes h (.bind id name v) id name v
  | assign {id found : ScopeId} {name : Text} {v : Value} : h.Resolves name id found →
    Writes h (.assign id name v) found name v

/-- The value was the last one that was written there. -/
def LastWritten (h : History) (id : ScopeId) (name : Text) (v : Value) : Prop :=
  ∃ (later : History) (op : Operation) (earlier : History),
    h = later ++ op :: earlier ∧ earlier.Writes op id name v ∧
      ∀ (newer older : History) (op' : Operation) (w : Value), later = newer ++ op' :: older →
        ¬ Writes (older ++ op :: earlier) op' id name w

end History

/-- A store in which this was done, from no scopes on. Whatever happens to its arrays, objects and closures is not part
of the history. -/
inductive Performed : History → Store → Prop
  | start {s : Store} : s.scopes = #[] → Performed [] s
  | step {h : History} {s : Store} {op : Operation} : Performed h s → op.Possible s → Performed (op :: h) (op.after s)
  | aside {h : History} {s s' : Store} : Performed h s → s'.scopes = s.scopes → Performed h s'

/-- In a store names are looked up, and given new values, as the history says. -/
structure Lexical (h : History) (s : Store) : Prop where
  /-- A name has the value that was last written where it leads. -/
  found : ∀ id name v, s.lookup id name = some v ↔ ∃ scope, h.Resolves name id scope ∧ h.LastWritten scope name v
  /-- A name has no value only if it leads nowhere. -/
  missing : ∀ id name, s.lookup id name = none ↔ ∀ scope, ¬ h.Resolves name id scope
  /-- A name can be given a new value when it has one. -/
  assignable : ∀ id name v, (s.assign? id name v).isSome = (s.lookup id name).isSome
  /-- The new value is written where the name leads, and all else stays. -/
  assigned : ∀ id name v, (s.lookup id name).isSome → ∃ scope, h.Resolves name id scope ∧
    s.Rewritten scope name v ((Operation.assign id name v).after s)
  refused : ∀ id name v, s.lookup id name = none → (Operation.assign id name v).after s = s
  /-- Binding a name writes in this scope only. -/
  bound : ∀ id name v, s.Has (.scope id) → s.Rewritten id name v ((Operation.bind id name v).after s)
  /-- Neither a new value for a name nor a look at it binds a name anywhere. -/
  unbound : ∀ id name v other key,
    (((Operation.assign id name v).after s).bindings other).contains key = (s.bindings other).contains key ∧
      (((Operation.look id name).after s).bindings other).contains key = (s.bindings other).contains key
  /-- What has been written is seen from the scopes from which the name now leads there. -/
  seen : ∀ op scope name v, op.Possible s → h.Writes op scope name v → ∀ id,
    History.Resolves (op :: h) name id scope → (op.after s).lookup id name = some v
  /-- From all others, and under other names, the same is seen as before. -/
  unseen : ∀ op scope name v, op.Possible s → h.Writes op scope name v → ∀ id key,
    ¬ (key = name ∧ History.Resolves (op :: h) name id scope) → (op.after s).lookup id key = s.lookup id key

variable {h : History} {s s' : Store} {op : Operation} {id outer scope : ScopeId} {name : Text} {v w : Value}

namespace History

theorem binds_cons :
    Binds (op :: h) id name ↔ (∃ v, op = .bind id name v) ∨ op ≠ .forget id ∧ h.Binds id name := by
  constructor
  · rintro ⟨later, v, earlier, same, kept⟩
    cases later with
    | nil => exact .inl ⟨v, (List.cons.inj same).1⟩
    | cons first later =>
      obtain ⟨rfl, rfl⟩ := List.cons.inj same
      exact .inr ⟨fun equal => kept (equal ▸ List.mem_cons_self), later, v, earlier, rfl, fun mem =>
        kept (List.mem_cons_of_mem _ mem)⟩
  · rintro (⟨v, rfl⟩ | ⟨other, later, v, earlier, rfl, kept⟩)
    · exact ⟨[], v, h, rfl, List.not_mem_nil⟩
    · exact ⟨op :: later, v, earlier, rfl, fun mem => (List.mem_cons.1 mem).elim (fun equal => other equal.symm) kept⟩

theorem not_binds_nil : ¬ Binds [] id name := by
  rintro ⟨later, v, earlier, same, _⟩
  cases later <;> cases same

theorem lastWritten_cons : LastWritten (op :: h) id name v ↔
    h.Writes op id name v ∨ (∀ w, ¬ h.Writes op id name w) ∧ h.LastWritten id name v := by
  constructor
  · rintro ⟨later, written, earlier, same, writes, last⟩
    cases later with
    | nil =>
      obtain ⟨rfl, rfl⟩ := List.cons.inj same
      exact .inl writes
    | cons first later =>
      obtain ⟨rfl, rfl⟩ := List.cons.inj same
      refine .inr ⟨fun w => last [] later op w rfl, later, written, earlier, rfl, writes,
        fun newer older op' w split => ?_⟩
      exact last (op :: newer) older op' w (congrArg (op :: ·) split)
  · rintro (writes | ⟨silent, later, written, earlier, rfl, writes, last⟩)
    · exact ⟨[], op, h, rfl, writes, fun newer _ _ _ split => absurd split (by cases newer <;> nofun)⟩
    · refine ⟨op :: later, written, earlier, rfl, writes, fun newer older op' w split => ?_⟩
      cases newer with
      | nil =>
        obtain ⟨rfl, rfl⟩ := List.cons.inj split
        exact silent w
      | cons first newer =>
        obtain ⟨rfl, rfl⟩ := List.cons.inj split
        exact last newer older op' w rfl

/-- An operation writes one value. -/
theorem Writes.value_unique (writes : h.Writes op id name v) (other : h.Writes op id name w) : v = w := by
  cases writes <;> cases other <;> rfl

theorem LastWritten.value_unique (last : h.LastWritten id name v) (other : h.LastWritten id name w) : v = w := by
  induction h with
  | nil =>
    obtain ⟨later, _, _, same, _⟩ := last
    cases later <;> cases same
  | cons op h ih =>
    rcases lastWritten_cons.1 last with writes | ⟨silent, last⟩ <;>
      rcases lastWritten_cons.1 other with writes' | ⟨silent', other⟩
    · exact writes.value_unique writes'
    · exact absurd writes (silent' v)
    · exact absurd writes' (silent w)
    · exact ih last other

theorem Resolves.binds (resolves : h.Resolves name id scope) : h.Binds scope name := by
  induction resolves with
  | here binds => exact binds
  | outer _ _ _ ih => exact ih

end History

/-- What the tables of a store hold is what the history says. -/
structure Recorded (h : History) (s : Store) : Prop where
  size : s.scopes.size = h.creations.length
  outer : ∀ id, s.outer? id = h.creations[id]?.join
  older : ∀ id outer, s.outer? id = some outer → outer < id
  binds : ∀ id name, (s.bindings id).contains name ↔ h.Binds id name
  written : ∀ id name v, (s.bindings id).get? name = some v → h.LastWritten id name v

namespace Recorded

theorem liesIn_iff (recorded : Recorded h s) : h.LiesIn id outer ↔ s.outer? id = some outer := by
  rw [recorded.outer, Option.join_eq_some_iff, History.LiesIn]

/-- A name leads to the innermost scope that binds it. -/
theorem resolves_iff (recorded : Recorded h s) : h.Resolves name id scope ↔ s.binder? id name = some scope := by
  constructor
  · intro resolves
    induction resolves with
    | here binds => exact binder?_of_contains ((recorded.binds _ _).2 binds)
    | outer free lies _ ih =>
      have lies := recorded.liesIn_iff.1 lies
      rw [binder?_of_outer (fun binds => free ((recorded.binds _ _).1 binds)) lies (recorded.older _ _ lies), ih]
  · induction id using Nat.strongRecOn with
    | ind id ih =>
      intro found
      by_cases binds : (s.bindings id).contains name
      · cases (binder?_of_contains binds).symm.trans found
        exact .here ((recorded.binds _ _).1 binds)
      · cases lies : s.outer? id with
        | none => cases (binder?_of_none binds lies).symm.trans found
        | some outer =>
          have older := recorded.older _ _ lies
          rw [binder?_of_outer binds lies older] at found
          have free : ¬ h.Binds id name := fun other => binds ((recorded.binds _ _).2 other)
          exact .outer free (recorded.liesIn_iff.2 lies) (ih outer older found)

/-- What a scope binds a name to is what was written there last. -/
theorem get?_iff (recorded : Recorded h s) (binds : h.Binds id name) :
    (s.bindings id).get? name = some v ↔ h.LastWritten id name v := by
  refine ⟨recorded.written id name v, fun last => ?_⟩
  obtain ⟨w, there⟩ := Option.isSome_iff_exists.1 ((recorded.binds id name).2 binds)
  rw [there, (recorded.written id name w there).value_unique last]

theorem has_of_binds (recorded : Recorded h s) (binds : h.Binds id name) : s.Has (.scope id) := by
  refine Nat.lt_of_not_le fun beyond => ?_
  have bound := (recorded.binds id name).2 binds
  rw [bindings, Array.getElem?_eq_none beyond] at bound
  cases bound

/-- An operation writes in one place. -/
theorem writes_unique (recorded : Recorded h s) (writes : h.Writes op scope name v) {other : ScopeId} {key : Text}
    (also : h.Writes op other key w) : other = scope ∧ key = name := by
  cases writes with
  | bind =>
    cases also
    exact ⟨rfl, rfl⟩
  | assign resolves =>
    cases also with
    | assign resolves' =>
      have same := (recorded.resolves_iff.1 resolves').symm.trans (recorded.resolves_iff.1 resolves)
      exact ⟨Option.some.inj same, rfl⟩

/-- An operation binds no other name than the one that it writes to. -/
theorem binds_written (writes : h.Writes op scope name v) {other : ScopeId} {key : Text} :
    History.Binds (op :: h) other key ↔ other = scope ∧ key = name ∨ h.Binds other key := by
  rw [History.binds_cons]
  cases writes with
  | bind =>
    simp only [Operation.bind.injEq, reduceCtorEq, ne_eq, not_false_eq_true, true_and]
    refine or_congr ⟨fun ⟨_, same, key, _⟩ => ⟨same.symm, key.symm⟩, fun ⟨same, key⟩ => ?_⟩ .rfl
    exact ⟨v, same.symm, key.symm, rfl⟩
  | assign resolves =>
    simp only [reduceCtorEq, exists_false, ne_eq, not_false_eq_true, true_and, false_or]
    refine ⟨.inr, ?_⟩
    rintro (⟨rfl, rfl⟩ | binds)
    · exact resolves.binds
    · exact binds

/-- What an operation writes is written into the table of the scope. -/
theorem after_of_writes (recorded : Recorded h s) (writes : h.Writes op scope name v) :
    op.after s = s.define scope name v := by
  cases writes with
  | bind => rfl
  | assign resolves =>
    rw [Operation.after, assign?, recorded.resolves_iff.1 resolves, Option.map_some, Option.getD_some]

theorem rewritten (recorded : Recorded h s) (possible : op.Possible s) (writes : h.Writes op scope name v) :
    s.Rewritten scope name v (op.after s) := by
  rw [recorded.after_of_writes writes]
  refine define_rewritten ?_ name v
  cases writes with
  | bind => exact possible
  | assign resolves => exact recorded.has_of_binds resolves.binds

theorem start (none : s.scopes = #[]) : Recorded [] s where
  size := by rw [none]; rfl
  outer id := by simp [Store.outer?, none, History.creations]
  older id outer lies := by simp [Store.outer?, none] at lies
  binds id name := by
    refine ⟨fun bound => ?_, fun binds => absurd binds History.not_binds_nil⟩
    simp [bindings, none, Table.contains, Table.get?, Table.empty] at bound
  written id name v bound := by simp [bindings, none, Table.get?, Table.empty] at bound

theorem aside (recorded : Recorded h s) (same : s'.scopes = s.scopes) : Recorded h s' := by
  have outer : s'.outer? = s.outer? := funext fun id => by rw [Store.outer?, Store.outer?, same]
  have bindings : s'.bindings = s.bindings := funext fun id => by rw [Store.bindings, Store.bindings, same]
  refine ⟨same ▸ recorded.size, ?_, ?_, ?_, ?_⟩
  · rw [outer]; exact recorded.outer
  · rw [outer]; exact recorded.older
  · rw [bindings]; exact recorded.binds
  · rw [bindings]; exact recorded.written

/-- An operation that writes something. -/
theorem write (recorded : Recorded h s) (possible : op.Possible s) (writes : h.Writes op scope name v) :
    Recorded (op :: h) (op.after s) := by
  have rewritten := recorded.rewritten possible writes
  have creations : History.creations (op :: h) = h.creations := by cases writes <;> rfl
  refine ⟨?_, fun other => ?_, fun other out lies => ?_, fun other key => ?_, fun other key w bound => ?_⟩
  · rw [rewritten.size, recorded.size, creations]
  · rw [rewritten.outer, recorded.outer, creations]
  · rw [rewritten.outer] at lies
    exact recorded.older other out lies
  · rw [binds_written writes, ← recorded.binds, Table.contains, rewritten.bindings]
    split <;> simp [Table.contains, *]
  · rw [rewritten.bindings] at bound
    refine History.lastWritten_cons.2 ?_
    split at bound
    · next here =>
      cases bound
      rw [here.1, here.2]
      exact .inl writes
    · next elsewhere =>
      exact .inr ⟨fun _ also => elsewhere (recorded.writes_unique writes also), recorded.written other key w bound⟩

/-- An operation that does nothing to the store. -/
theorem idle (recorded : Recorded h s) (creations : History.creations (op :: h) = h.creations)
    (binds : ∀ id name, History.Binds (op :: h) id name ↔ h.Binds id name)
    (silent : ∀ id name v, ¬ h.Writes op id name v) : Recorded (op :: h) s where
  size := by rw [recorded.size, creations]
  outer id := by rw [recorded.outer, creations]
  older := recorded.older
  binds id name := by rw [binds, recorded.binds]
  written id name v bound := History.lastWritten_cons.2 (.inr ⟨silent id name, recorded.written id name v bound⟩)

theorem create (recorded : Recorded h s) {out : Option ScopeId} (possible : (Operation.create out).Possible s) :
    Recorded (.create out :: h) (s.newScope out).2 where
  size := by simp [newScope, recorded.size, History.creations]
  outer id := by
    rw [outer?_newScope, recorded.outer, recorded.size, History.creations]
    by_cases new : id = h.creations.length
    · rw [if_pos new, new, List.getElem?_concat_length, Option.join_some]
    · rw [if_neg new]
      by_cases old : id < h.creations.length
      · rw [List.getElem?_append_left old]
      · have beyond : h.creations.length + 1 ≤ id := Nat.lt_of_le_of_ne (Nat.le_of_not_lt old) (Ne.symm new)
        rw [List.getElem?_eq_none (Nat.le_of_not_lt old), List.getElem?_eq_none]
        simpa using beyond
  older id outer lies := by
    rw [outer?_newScope] at lies
    split at lies
    · next new => exact new ▸ possible outer lies
    · exact recorded.older id outer lies
  binds id name := by
    rw [Table.contains, get?_newScope, ← Table.contains, recorded.binds, History.binds_cons]
    simp
  written id name v bound := by
    rw [get?_newScope] at bound
    exact History.lastWritten_cons.2 (.inr ⟨fun _ writes => by (cases writes), recorded.written id name v bound⟩)

theorem forget (recorded : Recorded h s) (id : ScopeId) : Recorded (.forget id :: h) (s.clearScope id) where
  size := Array.size_modify.trans recorded.size
  outer other := (clearScope_outer? s id other).trans (recorded.outer other)
  older other outer lies := recorded.older other outer ((s.clearScope_outer? id other).symm.trans lies)
  binds other name := by
    rw [History.binds_cons, clearScope_bindings, ← recorded.binds]
    split <;> simp [Table.contains, Table.get?, Table.empty, *]
  written other name v bound := by
    rw [clearScope_bindings] at bound
    split at bound
    · cases bound
    · exact History.lastWritten_cons.2 (.inr ⟨fun _ writes => by (cases writes), recorded.written other name v bound⟩)

theorem step (recorded : Recorded h s) (possible : op.Possible s) : Recorded (op :: h) (op.after s) := by
  cases op with
  | create out => exact recorded.create possible
  | bind id name v => exact recorded.write possible .bind
  | assign id name v =>
    cases found : s.binder? id name with
    | some scope => exact recorded.write possible (.assign (recorded.resolves_iff.2 found))
    | none =>
      have same : (Operation.assign id name v).after s = s := by rw [Operation.after, assign?, found]; rfl
      rw [same]
      refine recorded.idle rfl (fun _ _ => by rw [History.binds_cons]; simp) fun scope key w writes => ?_
      cases writes with
      | assign resolves => cases found.symm.trans (recorded.resolves_iff.1 resolves)
  | look id name =>
    exact recorded.idle rfl (fun _ _ => by rw [History.binds_cons]; simp) fun _ _ _ writes => by cases writes
  | forget id => exact recorded.forget id

end Recorded

/-- Every history of the first store goes on to the second one. -/
def Continues (s s' : Store) : Prop := ∀ h, Performed h s → ∃ later : History, Performed (later ++ h) s'

namespace Continues

theorem trans {s'' : Store} (first : Continues s s') (second : Continues s' s'') : Continues s s'' := by
  intro h performed
  obtain ⟨before, performed⟩ := first h performed
  obtain ⟨later, performed⟩ := second _ performed
  exact ⟨later ++ before, (List.append_assoc later before h).symm ▸ performed⟩

theorem performed (continues : Continues s s') (before : ∃ h, Performed h s) : ∃ h, Performed h s' := by
  obtain ⟨h, performed⟩ := before
  obtain ⟨later, performed⟩ := continues h performed
  exact ⟨_, performed⟩

theorem aside (same : s'.scopes = s.scopes) : Continues s s' := fun _ performed => ⟨[], performed.aside same⟩

theorem refl (s : Store) : Continues s s := aside rfl

theorem step (possible : op.Possible s) : Continues s (op.after s) := fun _ performed => ⟨[op], performed.step possible⟩

/-- Nothing happens to a scope that is not there. -/
theorem missing (missing : ¬ s.Has (.scope id)) (f : Scope → Scope) :
    Continues s { s with scopes := s.scopes.modify id f } := by
  refine aside (Array.ext Array.size_modify fun k _ lower => ?_)
  have other : id ≠ k := fun same => missing (same ▸ lower)
  exact Array.getElem_modify_of_ne other _ _

theorem clearScope (s : Store) (id : ScopeId) : Continues s (s.clearScope id) := by
  by_cases has : s.Has (.scope id)
  · have possible : (Operation.forget id).Possible s := has
    exact step possible
  · exact missing has _

theorem clearScopes (s : Store) (ids : List ScopeId) : Continues s (ids.foldl Store.clearScope s) := by
  induction ids generalizing s with
  | nil => exact refl s
  | cons id ids ih => exact (clearScope s id).trans (ih _)

end Continues

theorem Edit.continues {region : Node → Prop} (edit : Edit region s s') : Continues s s' := by
  cases edit with
  | newScope within =>
    have possible : (Operation.create (some _)).Possible s := fun _ same => Option.some.inj same ▸ within.2
    exact .step possible
  | @define id name v _ _ =>
    by_cases has : s.Has (.scope id)
    · have possible : (Operation.bind id name v).Possible s := has
      exact .step possible
    · exact .missing has _
  | _ => exact .aside rfl

/-- What a program does to a store goes on with its history. -/
theorem Edits.continues {region : Node → Prop} (edits : Edits region s s') : Continues s s' := by
  induction edits with
  | refl => exact .refl s
  | tail _ edit ih => exact ih.trans edit.continues

theorem Performed.recorded (performed : Performed h s) : Recorded h s := by
  induction performed with
  | start none => exact .start none
  | step _ possible ih => exact ih.step possible
  | aside _ same ih => exact ih.aside same

theorem Recorded.lookup_iff (recorded : Recorded h s) :
    s.lookup id name = some v ↔ ∃ scope, h.Resolves name id scope ∧ h.LastWritten scope name v := by
  rw [lookup_eq, Option.bind_eq_some_iff]
  refine exists_congr fun scope => ?_
  rw [← recorded.resolves_iff]
  exact and_congr_right fun resolves => recorded.get?_iff resolves.binds

theorem Recorded.lookup_none_iff (recorded : Recorded h s) :
    s.lookup id name = none ↔ ∀ scope, ¬ h.Resolves name id scope := by
  rw [lookup_eq_none_iff, Option.eq_none_iff_forall_ne_some]
  exact forall_congr' fun scope => not_congr recorded.resolves_iff.symm

/-- A name with a value leads to where an assignment writes. -/
theorem Recorded.assigned (recorded : Recorded h s) (known : (s.lookup id name).isSome) (v : Value) :
    ∃ scope, h.Resolves name id scope ∧ s.Rewritten scope name v ((Operation.assign id name v).after s) := by
  rw [isSome_lookup] at known
  obtain ⟨scope, found⟩ := Option.isSome_iff_exists.1 known
  have resolves := recorded.resolves_iff.2 found
  refine ⟨scope, resolves, ?_⟩
  rw [recorded.after_of_writes (.assign resolves)]
  exact define_rewritten (recorded.has_of_binds resolves.binds) name v

theorem after_assign_of_none (unknown : s.lookup id name = none) (v : Value) :
    (Operation.assign id name v).after s = s := by
  rw [Operation.after, assign?, lookup_eq_none_iff.1 unknown]
  rfl

theorem Recorded.contains_after_assign (recorded : Recorded h s) (id : ScopeId) (name : Text) (v : Value)
    (other : ScopeId) (key : Text) :
    (((Operation.assign id name v).after s).bindings other).contains key = (s.bindings other).contains key := by
  cases found : s.lookup id name with
  | none => rw [after_assign_of_none found]
  | some w =>
    have known : (s.lookup id name).isSome := by rw [found]; rfl
    obtain ⟨scope, resolves, rewritten⟩ := recorded.assigned known v
    rw [Table.contains, rewritten.bindings]
    split
    · next here => rw [here.1, here.2, (recorded.binds scope name).2 resolves.binds]; rfl
    · rfl

/-- What has been written is seen from where its name leads to it, and nothing else is seen changed. -/
theorem Recorded.lookup_after (recorded : Recorded h s) (possible : op.Possible s) (writes : h.Writes op scope name v)
    (id : ScopeId) (key : Text) [Decidable (key = name ∧ History.Resolves (op :: h) name id scope)] :
    (op.after s).lookup id key =
      if key = name ∧ History.Resolves (op :: h) name id scope then some v else s.lookup id key := by
  have rewritten := recorded.rewritten possible writes
  by_cases same : key = name
  · subst same
    rw [rewritten.lookup_same]
    simp only [(recorded.step possible).resolves_iff, true_and]
  · rw [rewritten.lookup_other id same, if_neg fun both => same both.1]

/-- After every history names are bound lexically. -/
theorem Performed.lexical (performed : Performed h s) : Lexical h s where
  found _ _ _ := performed.recorded.lookup_iff
  missing _ _ := performed.recorded.lookup_none_iff
  assignable id name v := by rw [assign?, Option.isSome_map, isSome_lookup]
  assigned _ _ v known := performed.recorded.assigned known v
  refused _ _ v unknown := after_assign_of_none unknown v
  bound _ name v has := define_rewritten has name v
  unbound id name v other key := ⟨performed.recorded.contains_after_assign id name v other key, rfl⟩
  seen op scope name v possible writes id resolves := by
    classical
    rw [performed.recorded.lookup_after possible writes, if_pos ⟨rfl, resolves⟩]
  unseen op scope name v possible writes id key away := by
    classical
    rw [performed.recorded.lookup_after possible writes, if_neg away]

/-- Two scopes lie in a third one. One of them binds the name for a while, and a value is written through the other
one: both see it in the end. -/
theorem lexical_shared : ∃ s : Store,
    Lexical [.assign 2 "a" (.boolean true), .forget 1, .assign 1 "a" .null, .bind 1 "a" (.boolean false),
      .bind 0 "a" .null, .create (some 0), .create (some 0), .create none] s ∧
    s.lookup 0 "a" = some (.boolean true) ∧ s.lookup 1 "a" = some (.boolean true) ∧ s.lookup 1 "b" = none := by
  refine ⟨_, Performed.lexical (.step (.step (.step (.step (.step (.step (.step (.step (.start (s := .empty) rfl)
    ?_) ?_) ?_) ?_) ?_) ?_) ?_) ?_), ?_⟩
  all_goals decide +kernel

end TinyScript.Store
