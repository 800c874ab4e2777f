import TinyScript.Proofs.Evaluation.Moments
import TinyScript.Proofs.Hollow.Stores

namespace TinyScript

variable {α β γ δ : Type}

namespace Seats

variable {p q r : Seats}

structure States (p : Seats) (st st' : State) : Prop where
  store : p.Stores st.store st'.store
  printed : st'.printed = st.printed
  latest : st'.latest = st.latest

/-- The runs end alike. More scopes may have got seats. -/
inductive Outcomes (p : Seats) (G : Seats → α → β → Prop) : Outcome α → Outcome β → Prop
  | done {q : Seats} {a : α} {b : β} {st st' : State} : p.Before q → G q a b → q.States st st' →
    Outcomes p G (.done a st) (.done b st')
  | failed {q : Seats} {error : RuntimeError} {st st' : State} : p.Before q → q.States st st' →
    Outcomes p G (.failed error st) (.failed error st')
  | unfinished : Outcomes p G .unfinished .unfinished

/-- Without the hollow scopes the second run does what the first one does. -/
def Runs (p : Seats) (G : Seats → α → β → Prop) (x : Run α) (y : Run β) : Prop :=
  ∀ st st', p.States st st' → p.Outcomes G (x st) (y st')

def Same (_ : Seats) (a b : α) : Prop := b = a

structure Contexts (p : Seats) (c c' : Context) : Prop where
  scope : p.Known c.scope c'.scope
  depth : c'.depth = c.depth
  limit : c'.limit = c.limit
  room : c'.room = c.room
  time : c'.time = c.time

variable {G : Seats → α → β → Prop} {H : Seats → γ → δ → Prop} {c c' : Context} {id id' : ScopeId} {line : Nat}
  {name : Text} {v : Value}

namespace Contexts

theorem refl (known : p.Known c.scope c.scope) : p.Contexts c c := ⟨known, rfl, rfl, rfl, rfl⟩

theorem mono (contexts : p.Contexts c c') (before : p.Before q) : q.Contexts c c' :=
  ⟨contexts.scope.mono before, contexts.depth, contexts.limit, contexts.room, contexts.time⟩

theorem inside (contexts : p.Contexts c c') : p.Contexts c.inside c'.inside :=
  ⟨contexts.scope, contexts.depth, contexts.limit, congrArg (· - 1) contexts.room, contexts.time⟩

theorem inScope (contexts : p.Contexts c c') (known : p.Known id id') :
    p.Contexts { c with scope := id } { c' with scope := id' } :=
  ⟨known, contexts.depth, contexts.limit, contexts.room, contexts.time⟩

theorem called (contexts : p.Contexts c c') (known : p.Known id id') : p.Contexts (c.called id) (c'.called id') :=
  ⟨known, congrArg (· + 1) contexts.depth, contexts.limit, congrArg (· - Context.callRoom) contexts.room,
    contexts.time⟩

theorem isFull (contexts : p.Contexts c c') : c'.isFull = c.isFull := by
  rw [Context.isFull, Context.isFull, contexts.depth, contexts.limit, contexts.room]

end Contexts

theorem Outcomes.mono {o : Outcome α} {o' : Outcome β} (outcomes : q.Outcomes G o o') (before : p.Before q) :
    p.Outcomes G o o' := by
  cases outcomes with
  | done later related states => exact .done (before.trans later) related states
  | failed later states => exact .failed (before.trans later) states
  | unfinished => exact .unfinished

namespace Runs

theorem bind {x : Run α} {y : Run β} {f : α → Run γ} {h : β → Run δ} (first : p.Runs G x y)
    (later : ∀ q a b, p.Before q → G q a b → q.Runs H (f a) (h b)) : p.Runs H (x >>= f) (y >>= h) := by
  intro st st' states
  have both := first st st' states
  rw [Run.bind_apply, Run.bind_apply]
  revert both
  generalize x st = o
  generalize y st' = o'
  rintro (⟨before, related, states⟩ | ⟨before, states⟩ | _)
  · exact (later _ _ _ before related _ _ states).mono before
  · exact .failed before states
  · exact .unfinished

/-- Behind what yields the same the runs go on. -/
theorem behind {x y : Run α} {f : α → Run γ} {h : α → Run δ} (first : p.Runs Same x y)
    (later : ∀ q a, p.Before q → q.Runs H (f a) (h a)) : p.Runs H (x >>= f) (y >>= h) :=
  first.bind fun q a b before same => by
    obtain rfl : b = a := same
    exact later q b before

theorem pure {a : α} {b : β} (related : G p a b) : p.Runs G (Pure.pure a : Run α) (Pure.pure b) :=
  fun _ _ states => .done (.refl p) related states

theorem fail {fault : Fault} : p.Runs G (Run.fail line fault : Run α) (Run.fail line fault : Run β) :=
  fun _ _ states => .failed (.refl p) states

theorem reading {f : Store → α} {h : Store → β} (related : ∀ s s', p.Stores s s' → G p (f s) (h s')) :
    p.Runs G (Run.reading f) (Run.reading h) :=
  fun _ _ states => .done (.refl p) (related _ _ states.store) states

theorem creating {f : Store → α × Store} {h : Store → β × Store}
    (related : ∀ s s', p.Stores s s' → G p (f s).1 (h s').1 ∧ p.Stores (f s).2 (h s').2) :
    p.Runs G (Run.creating f) (Run.creating h) :=
  fun _ _ states => .done (.refl p) (related _ _ states.store).1
    ⟨(related _ _ states.store).2, states.printed, states.latest⟩

theorem changing {f h : Store → Store} (related : ∀ s s', p.Stores s s' → p.Stores (f s) (h s')) :
    p.Runs Same (Run.changing f) (Run.changing h) :=
  fun _ _ states => .done (.refl p) rfl ⟨related _ _ states.store, states.printed, states.latest⟩

theorem keep (v : Value) : p.Runs Same (Run.keep v) (Run.keep v) :=
  fun _ _ states => .done (.refl p) rfl ⟨states.store, states.printed, rfl⟩

theorem keeping {x y : Run Value} (same : p.Runs Same x y) : p.Runs Same (Run.keeping x) (Run.keeping y) :=
  same.behind fun _ v _ => (keep v).behind fun _ _ _ => pure rfl

theorem print (t : Text) : p.Runs Same (Run.print t) (Run.print t) :=
  fun _ _ states => .done (.refl p) rfl ⟨states.store, congrArg (·.push t) states.printed, states.latest⟩

theorem withoutValue : p.Runs Same Evaluation.withoutValue Evaluation.withoutValue :=
  (keep .null).behind fun _ _ _ => pure rfl

/-- What is read off both stores alike. -/
theorem read {f : Store → α} (same : ∀ s s', p.Stores s s' → f s' = f s) :
    p.Runs Same (Run.reading f) (Run.reading f) := reading same

theorem packed (v : Value) : p.Runs Same (.reading (·.packed v)) (.reading (·.packed v)) :=
  read fun _ _ stores => stores.packed v

theorem newArray (elements : Array Value) :
    p.Runs Same (.creating (·.newArray elements)) (.creating (·.newArray elements)) :=
  creating fun _ _ stores => stores.newArray elements

theorem newObject (entries : Table Value) :
    p.Runs Same (.creating (·.newObject entries)) (.creating (·.newObject entries)) :=
  creating fun _ _ stores => stores.newObject entries

theorem binary (op : BinaryOperator) (line : Nat) (v w : Value) :
    p.Runs Same (op.apply line v w) (op.apply line v w) := by
  unfold BinaryOperator.apply
  split
  · exact pure rfl
  · exact pure rfl
  · exact pure rfl
  · exact (packed _).behind fun _ _ _ => pure rfl
  · exact (packed _).behind fun _ _ _ => pure rfl
  · exact fail

theorem unary (op : UnaryOperator) (line : Nat) (v : Value) : p.Runs Same (op.apply line v) (op.apply line v) := by
  unfold UnaryOperator.apply
  split
  · exact pure rfl
  · exact pure rfl
  · exact fail

theorem index (line : Nat) (v i : Value) : p.Runs Same (v.at line i) (v.at line i) := by
  unfold Value.at
  split
  · exact read fun _ _ stores => by rw [stores.elements]
  · exact pure rfl
  · exact read fun _ _ stores => by rw [stores.entries]
  · exact fail
  · exact fail

theorem body (which : Builtin) (time : Float) (line : Nat) (vs : List Value) :
    p.Runs Same (which.body time line vs) (which.body time line vs) := by
  have texts (vs : List Value) {q : Seats} :
      q.Runs Same (.reading fun s => vs.map s.display) (.reading fun s => vs.map s.display) :=
    read fun _ _ stores => List.map_congr_left fun v _ => stores.display v
  unfold Builtin.body
  split
  · exact (texts _).behind fun _ _ _ => (print _).behind fun _ _ _ => pure rfl
  · exact (texts _).behind fun _ _ _ => (print _).behind fun _ _ _ => pure rfl
  · exact pure rfl
  · exact read fun _ _ stores => by rw [stores.elements]
  · exact read fun _ _ stores => by rw [stores.entries]
  · exact pure rfl
  · exact read fun _ _ stores => by rw [stores.elements]
  · exact pure rfl
  · exact read fun _ _ stores => by rw [stores.elements]
  · split <;> exact pure rfl
  · refine (read fun _ _ stores => stores.elements _).behind fun _ elements _ => ?_
    split
    · exact pure rfl
    · exact (newArray _).behind fun _ _ _ => pure rfl
  · exact (changing fun _ _ stores => stores.append _ _).behind fun _ _ _ => pure rfl
  · exact pure rfl
  · exact read fun _ _ stores => congrArg Value.string (stores.packed _)
  · exact pure rfl
  · exact fail
  · exact pure rfl

theorem builtin (which : Builtin) (time : Float) (line : Nat) (vs : List Value) :
    p.Runs Same (which.apply time line vs) (which.apply time line vs) := by
  unfold Builtin.apply
  split
  · exact body which time line vs
  · split
    · exact body which time line vs
    · exact fail

theorem variableValue (contexts : p.Contexts c c') (line : Nat) (name : Text) :
    p.Runs Same (Evaluation.variableValue c line name) (Evaluation.variableValue c' line name) := by
  have looked : p.Runs Same (.reading (·.lookup c.scope name)) (.reading (·.lookup c'.scope name)) :=
    reading fun _ _ stores => stores.lookup contexts.scope name
  refine looked.behind fun _ found _ => ?_
  cases found with
  | none => exact fail
  | some v => exact pure rfl

theorem assignVariable (contexts : p.Contexts c c') (line : Nat) (name : Text) (v : Value) :
    p.Runs Same (Evaluation.assignVariable c line name v) (Evaluation.assignVariable c' line name v) := by
  intro st st' states
  have binder := states.store.binder? contexts.scope name
  unfold Evaluation.assignVariable
  rw [Run.bind_apply, Run.bind_apply]
  simp only [Run.reading]
  cases found : st.store.binder? c.scope name with
  | none =>
    rw [found] at binder
    generalize st'.store.binder? c'.scope name = found' at binder
    cases binder
    exact .failed (.refl p) states
  | some scope =>
    rw [found] at binder
    obtain ⟨scope', found', solid⟩ := exists_of_rel_left binder
    rw [found']
    have binds := Store.contains_of_binder? found
    exact .done (.refl p) rfl ⟨states.store.define solid (.inr binds) v, states.printed, states.latest⟩

theorem define (free : p.Free id id') (name : Text) (v : Value) :
    p.Runs Same (.changing (·.define id name v)) (.changing (·.define id' name v)) :=
  changing fun _ _ stores => stores.define free.solid (.inl free) v

theorem bindParameters (free : p.Free id id') (parameters : List Text) (vs : List Value) :
    p.Runs Same (.changing (Evaluation.bindParameters id parameters vs))
      (.changing (Evaluation.bindParameters id' parameters vs)) := by
  refine changing fun s s' stores => ?_
  unfold Evaluation.bindParameters
  induction parameters.zip vs generalizing s s' with
  | nil => exact stores
  | cons pair pairs ih => exact ih _ _ (stores.define free.solid (.inl free) pair.2)

/-- Both stores get a scope, in which names may be bound. -/
theorem newScope (known : p.Known id id') :
    p.Runs Free (.creating (·.newScope (some id))) (.creating (·.newScope (some id'))) := by
  intro st st' states
  have last : (p.add ⟨st'.store.scopes.size, .free⟩).Free st.store.scopes.size st'.store.scopes.size := by
    rw [← states.store.size]
    exact p.at_last _
  exact .done (p.before_add _) last ⟨states.store.newScope known, states.printed, states.latest⟩

theorem newClosure (known : p.Known id id') (literal : FunctionLiteral) :
    p.Runs Same (.creating (·.newClosure literal id)) (.creating (·.newClosure literal id')) :=
  creating fun _ _ stores => stores.newClosure known literal

theorem functionValue (contexts : p.Contexts c c') (literal : FunctionLiteral) :
    p.Runs Same (Evaluation.functionValue c literal) (Evaluation.functionValue c' literal) := by
  unfold Evaluation.functionValue
  split
  · exact (newClosure contexts.scope literal).behind fun _ _ _ => pure rfl
  · refine (newScope contexts.scope).bind fun q own own' _ free => ?_
    refine (newClosure free.known literal).behind fun r closure before => ?_
    exact (define (free.mono before) literal.name (.closure closure)).behind fun _ _ _ => pure rfl

theorem closure? (id : ClosureId) :
    p.Runs (fun q => Option.Rel q.Closures) (.reading (·.closures[id]?)) (.reading (·.closures[id]?)) :=
  reading fun _ _ stores => stores.closure? id

end Runs

end Seats

end TinyScript
