import TinyScript.Proofs.Guise.Stores
import TinyScript.Proofs.Store.Lookup

namespace TinyScript

variable {s s' : Store} {id id' outer outer' : ScopeId} {name : Text} {v : Value}

/-- Whether names may be bound in a scope. -/
inductive Seat.Kind where
  | free
  /-- The scope binds certain names, and no others from now on. It lies where it lies. -/
  | settled (binds : Text → Bool) (outer : Option ScopeId)
  /-- The scope binds no names. In the other store it is left out. -/
  | hollow

/-- What is known of a scope: the place that stands for it in the other store. For a hollow scope this is the place of
the scope that it lies in. -/
structure Seat where
  place : ScopeId
  kind : Seat.Kind

/-- The seats of the scopes of a store, in order. -/
structure Seats where
  all : List Seat

namespace Seats

variable {p q r : Seats} {seat added : Seat}

/-- A new scope gets a seat. -/
def add (p : Seats) (seat : Seat) : Seats := ⟨p.all ++ [seat]⟩

/-- Later there are the same seats and others. -/
def Before (p q : Seats) : Prop := p.all <+: q.all

def At (p : Seats) (id : ScopeId) (seat : Seat) : Prop := p.all[id]? = some seat

def Known (p : Seats) (id id' : ScopeId) : Prop := ∃ kind, p.At id ⟨id', kind⟩

/-- The scope is not left out. -/
def Solid (p : Seats) (id id' : ScopeId) : Prop := ∃ kind, kind ≠ .hollow ∧ p.At id ⟨id', kind⟩

def Free (p : Seats) (id id' : ScopeId) : Prop := p.At id ⟨id', .free⟩

theorem Before.refl (p : Seats) : p.Before p := List.prefix_rfl

theorem Before.trans (first : p.Before q) (second : q.Before r) : p.Before r := List.IsPrefix.trans first second

theorem before_add (p : Seats) (seat : Seat) : p.Before (p.add seat) := List.prefix_append p.all [seat]

theorem At.mono (here : p.At id seat) (before : p.Before q) : q.At id seat := by
  obtain ⟨more, same⟩ := before
  obtain ⟨lower, _⟩ := List.getElem?_eq_some_iff.1 here
  rw [At, ← same, List.getElem?_append_left lower]
  exact here

theorem Known.mono (known : p.Known id id') (before : p.Before q) : q.Known id id' :=
  known.imp fun _ here => here.mono before

theorem Free.mono (free : p.Free id id') (before : p.Before q) : q.Free id id' := At.mono free before

theorem Solid.known (solid : p.Solid id id') : p.Known id id' := solid.imp fun _ both => both.2

theorem Free.solid (free : p.Free id id') : p.Solid id id' := ⟨.free, nofun, free⟩

theorem Free.known (free : p.Free id id') : p.Known id id' := ⟨.free, free⟩

theorem at_add : (p.add added).At id seat ↔ p.At id seat ∨ id = p.all.length ∧ seat = added := by
  unfold At add
  rcases Nat.lt_trichotomy id p.all.length with lower | rfl | beyond
  · simp [List.getElem?_append_left lower, Nat.ne_of_lt lower]
  · simp [eq_comm]
  · have further : (p.all ++ [added]).length ≤ id := List.length_append ▸ beyond
    simp [List.getElem?_eq_none further, List.getElem?_eq_none (Nat.le_of_lt beyond), Nat.ne_of_gt beyond]

theorem at_last (p : Seats) (seat : Seat) : (p.add seat).At p.all.length seat := at_add.2 (.inr ⟨rfl, rfl⟩)

/-- The same function, made in a scope with a seat. -/
structure Closures (p : Seats) (c d : Closure) : Prop where
  literal : d.literal = c.literal
  scope : p.Known c.scope d.scope

/-- The scope lies in nothing on both sides, or in older scopes that have one seat. -/
def Outer (p : Seats) (s s' : Store) (id id' : ScopeId) : Prop :=
  Option.Rel (fun outer outer' => outer < id ∧ outer' < id' ∧ p.Known outer outer') (s.outer? id) (s'.outer? id')

/-- The second store is the first one without its hollow scopes. -/
structure Stores (p : Seats) (s s' : Store) : Prop where
  arrays : s'.arrays = s.arrays
  objects : s'.objects = s.objects
  created : s'.created = s.created
  closures : Stacked p.Closures #[] s.closures s'.closures
  size : p.all.length = s.scopes.size
  there : ∀ {id id'}, p.Known id id' → s'.Has (.scope id')
  unique : ∀ {id id' other}, p.Solid id id' → p.Solid other id' → other = id
  bindings : ∀ {id id'}, p.Solid id id' → s'.bindings id' = s.bindings id
  outer : ∀ {id id'}, p.Solid id id' → p.Outer s s' id id'
  settled : ∀ {id id' binds outer}, p.At id ⟨id', .settled binds outer⟩ →
    (∀ name, (s.bindings id).contains name = binds name) ∧ s.outer? id = outer
  hollow : ∀ {id id'}, p.At id ⟨id', .hollow⟩ → (∀ name, ¬ (s.bindings id).contains name) ∧
    ∃ outer, s.outer? id = some outer ∧ outer < id ∧ p.Known outer id'

namespace Stores

theorem has (stores : p.Stores s s') (known : p.Known id id') : s.Has (.scope id) := by
  obtain ⟨kind, here⟩ := known
  exact Nat.lt_of_lt_of_eq (List.getElem?_eq_some_iff.1 here).1 stores.size

theorem closure? (stores : p.Stores s s') (id : ClosureId) :
    Option.Rel p.Closures s.closures[id]? s'.closures[id]? := by
  have related := stores.closures.get id
  rwa [Array.size_empty, Nat.zero_add] at related

/-- A name is bound in scopes with one seat. -/
theorem binder? (stores : p.Stores s s') (known : p.Known id id') (name : Text) :
    Option.Rel p.Solid (s.binder? id name) (s'.binder? id' name) := by
  induction id using Nat.strongRecOn generalizing id' with
  | ind id ih =>
    obtain ⟨kind, here⟩ := known
    by_cases hollow : kind = .hollow
    · subst hollow
      obtain ⟨silent, outer, lies, older, known⟩ := stores.hollow here
      rw [Store.binder?_of_outer (silent name) lies older]
      exact ih outer older known
    · have solid : p.Solid id id' := ⟨kind, hollow, here⟩
      have same := stores.bindings solid
      by_cases binds : (s.bindings id).contains name
      · rw [Store.binder?_of_contains binds, Store.binder?_of_contains (same ▸ binds)]
        exact .some solid
      · have outer := stores.outer solid
        unfold Outer at outer
        have silent : ¬ (s'.bindings id').contains name := same ▸ binds
        cases lies : s.outer? id with
        | none =>
          rw [lies] at outer
          cases lies' : s'.outer? id' with
          | none =>
            rw [Store.binder?_of_none binds lies, Store.binder?_of_none silent lies']
            exact .none
          | some outer' =>
            rw [lies'] at outer
            cases outer
        | some out =>
          rw [lies] at outer
          obtain ⟨out', lies', older, older', known⟩ := exists_of_rel_left outer
          rw [Store.binder?_of_outer binds lies older, Store.binder?_of_outer silent lies' older']
          exact ih out older known

/-- A name has the same value in both stores. -/
theorem lookup (stores : p.Stores s s') (known : p.Known id id') (name : Text) :
    s'.lookup id' name = s.lookup id name := by
  rw [Store.lookup_eq, Store.lookup_eq]
  have binder := stores.binder? known name
  revert binder
  generalize s.binder? id name = found
  generalize s'.binder? id' name = found'
  rintro (⟨solid⟩ | _)
  · exact congrArg (·.get? name) (stores.bindings solid)
  · rfl

theorem elements (stores : p.Stores s s') (id : ArrayId) : s'.elements id = s.elements id := by
  rw [Store.elements, Store.elements, stores.arrays]

theorem entries (stores : p.Stores s s') (id : ObjectId) : s'.entries id = s.entries id := by
  rw [Store.entries, Store.entries, stores.objects]

theorem literals (stores : p.Stores s s') : s'.closures.map (·.literal) = s.closures.map (·.literal) := by
  refine Array.ext_getElem? fun id => ?_
  rw [Array.getElem?_map, Array.getElem?_map]
  have related := stores.closure? id
  revert related
  generalize s.closures[id]? = c
  generalize s'.closures[id]? = d
  rintro (⟨related⟩ | _)
  · exact congrArg some related.literal
  · rfl

theorem functionText (stores : p.Stores s s') (id : ClosureId) : s'.functionText id = s.functionText id := by
  have name (s : Store) : s.closures[id]?.map (·.literal.name) = (s.closures.map (·.literal))[id]?.map (·.name) := by
    rw [Array.getElem?_map, Option.map_map]
    rfl
  rw [Store.functionText, Store.functionText, name, name, stores.literals]

theorem display (stores : p.Stores s s') (v : Value) : s'.display v = s.display v := by
  have agrees : Store.Agrees (fun _ => True) s s' := ⟨fun _ _ _ _ => trivial, fun id _ => stores.elements id,
    fun id _ => stores.entries id, fun id _ => stores.functionText id⟩
  have count : s.aggregateCount ≤ s'.aggregateCount := by
    rw [Store.aggregateCount, Store.aggregateCount, stores.arrays, stores.objects]
  exact agrees.whole_text count (fun _ _ => trivial) false

theorem packed (stores : p.Stores s s') (v : Value) : s'.packed v = s.packed v := by
  cases v with
  | string => rfl
  | _ => exact congrArg Text.packed (stores.display _)

theorem newArray (stores : p.Stores s s') (elements : Array Value) :
    (s'.newArray elements).1 = (s.newArray elements).1 ∧
      p.Stores (s.newArray elements).2 (s'.newArray elements).2 := by
  refine ⟨congrArg Array.size stores.arrays, congrArg (·.push elements) stores.arrays, stores.objects, ?_,
    stores.closures, stores.size, stores.there, stores.unique, stores.bindings, stores.outer, stores.settled,
    stores.hollow⟩
  show s'.created.push s'.arrays.size = s.created.push s.arrays.size
  rw [stores.created, stores.arrays]

theorem newObject (stores : p.Stores s s') (entries : Table Value) :
    (s'.newObject entries).1 = (s.newObject entries).1 ∧
      p.Stores (s.newObject entries).2 (s'.newObject entries).2 :=
  ⟨congrArg Array.size stores.objects, stores.arrays, congrArg (·.push entries) stores.objects, stores.created,
    stores.closures, stores.size, stores.there, stores.unique, stores.bindings, stores.outer, stores.settled,
    stores.hollow⟩

theorem newClosure (stores : p.Stores s s') (known : p.Known id id') (literal : FunctionLiteral) :
    (s'.newClosure literal id').1 = (s.newClosure literal id).1 ∧
      p.Stores (s.newClosure literal id).2 (s'.newClosure literal id').2 := by
  have size : s'.closures.size = s.closures.size := by rw [stores.closures.size, Array.size_empty, Nat.zero_add]
  exact ⟨size, stores.arrays, stores.objects, stores.created, stores.closures.push ⟨rfl, known⟩, stores.size,
    stores.there, stores.unique, stores.bindings, stores.outer, stores.settled, stores.hollow⟩

theorem append (stores : p.Stores s s') (id : ArrayId) (v : Value) : p.Stores (s.append id v) (s'.append id v) :=
  ⟨congrArg (·.modify id (·.push v)) stores.arrays, stores.objects, stores.created, stores.closures, stores.size,
    stores.there, stores.unique, stores.bindings, stores.outer, stores.settled, stores.hollow⟩

/-- A name is bound where names may be bound, or where it is bound already. -/
theorem define (stores : p.Stores s s') (solid : p.Solid id id')
    (allowed : p.Free id id' ∨ (s.bindings id).contains name) (v : Value) :
    p.Stores (s.define id name v) (s'.define id' name v) := by
  have changed := Store.define_rewritten (stores.has solid.known) name v
  have changed' := Store.define_rewritten (stores.there solid.known) name v
  have elsewhere {other other' : ScopeId} {kind : Seat.Kind} (here : p.At other ⟨other', kind⟩)
      (hollow : kind = .hollow) : other ≠ id := by
    rintro rfl
    obtain ⟨kind', visible, also⟩ := solid
    cases here.symm.trans also
    exact visible hollow
  refine ⟨stores.arrays, stores.objects, stores.created, stores.closures, stores.size.trans changed.size.symm,
    fun known => ?_, stores.unique, fun {other other'} here => ?_, fun {other other'} here => ?_,
    fun {other other' binds out} here => ?_, fun {other other'} here => ?_⟩
  · exact Nat.lt_of_lt_of_eq (stores.there known) changed'.size.symm
  · refine Table.eq_of_get? fun key => ?_
    rw [changed'.bindings, changed.bindings, stores.bindings here]
    have both : other' = id' ↔ other = id := by
      constructor
      · rintro rfl
        exact stores.unique solid here
      · rintro rfl
        obtain ⟨_, _, here⟩ := here
        obtain ⟨_, _, there⟩ := solid
        cases here.symm.trans there
        rfl
    simp only [both]
  · unfold Outer
    rw [changed'.outer, changed.outer]
    exact stores.outer here
  · obtain ⟨names, lies⟩ := stores.settled here
    refine ⟨fun key => ?_, by rwa [changed.outer]⟩
    rw [Table.contains, changed.bindings]
    split
    · next both =>
      obtain ⟨rfl, rfl⟩ := both
      rcases allowed with free | contains
      · cases here.symm.trans free
      · rw [← names, contains]
        rfl
    · exact names key
  · obtain ⟨silent, lies⟩ := stores.hollow here
    refine ⟨fun key => ?_, by rwa [changed.outer]⟩
    rw [Table.contains, changed.bindings, if_neg fun both => elsewhere here rfl both.1]
    exact silent key

theorem bindings_newScope (s : Store) (out : Option ScopeId) (id : ScopeId) :
    (s.newScope out).2.bindings id = s.bindings id :=
  Table.eq_of_get? fun key => s.get?_newScope out id key

theorem solid_add (solid : (p.add added).Solid id id') :
    p.Solid id id' ∨ id = p.all.length ∧ added.place = id' ∧ added.kind ≠ .hollow := by
  obtain ⟨kind, visible, here⟩ := solid
  rcases at_add.1 here with old | ⟨last, rfl⟩
  · exact .inl ⟨kind, visible, old⟩
  · exact .inr ⟨last, rfl, visible⟩

/-- A new scope of the first store is left out, or it has a place of its own in the second one. -/
theorem grow {s'' : Store} (stores : p.Stores s s') (known : p.Known outer outer')
    (rest : s'' = { s' with scopes := s''.scopes })
    (old : ∀ id, s'.Has (.scope id) →
      s''.Has (.scope id) ∧ s''.bindings id = s'.bindings id ∧ s''.outer? id = s'.outer? id)
    (new : seat = ⟨outer', .hollow⟩ ∨ seat.kind = .free ∧ ¬ s'.Has (.scope seat.place) ∧
      s''.Lies seat.place outer' .empty) : (p.add seat).Stores (s.newScope (some outer)).2 s'' := by
  have more := p.before_add seat
  have last := stores.size
  have within := stores.has known
  have beyond := stores.there known
  have away {id id' : ScopeId} (known : p.Known id id') : id ≠ s.scopes.size := Nat.ne_of_lt (stores.has known)
  have own (solid : seat.kind ≠ .hollow) : ¬ s'.Has (.scope seat.place) ∧ s''.Lies seat.place outer' .empty :=
    new.elim (fun hollow => absurd (congrArg Seat.kind hollow) solid) fun free => free.2
  have nothing : s.bindings p.all.length = .empty := by simp [last, Store.bindings]
  rw [rest]
  refine ⟨stores.arrays, stores.objects, stores.created, ?_, ?_, fun {id id'} known => ?_,
    fun {id id' other} here there => ?_, fun {id id'} here => ?_, fun {id id'} here => ?_,
    fun {id id' binds out} here => ?_, fun {id id'} here => ?_⟩
  · exact ⟨stores.closures.size, fun i =>
      rel_imp (stores.closures.get i) fun _ _ same => ⟨same.literal, same.scope.mono more⟩⟩
  · show (p.all ++ [seat]).length = (s.scopes.push _).size
    rw [List.length_append, Array.size_push, last]
    rfl
  · rw [← rest]
    obtain ⟨kind, here⟩ := known
    rcases at_add.1 here with known | ⟨_, rfl⟩
    · exact (old id' (stores.there ⟨kind, known⟩)).1
    · rcases new with hollow | ⟨_, _, lies⟩
      · cases hollow
        exact (old _ beyond).1
      · exact lies.has
  · rcases solid_add here with known | ⟨rfl, rfl, solid⟩ <;> rcases solid_add there with known' | ⟨rfl, same, solid'⟩
    · exact stores.unique known known'
    · exact absurd (stores.there (same ▸ known.known)) (own solid').1
    · exact absurd (stores.there known'.known) (own solid).1
    · rfl
  · rw [← rest, bindings_newScope]
    rcases solid_add here with known | ⟨rfl, rfl, solid⟩
    · rw [(old id' (stores.there known.known)).2.1, stores.bindings known]
    · rw [(own solid).2.bindings, nothing]
  · rw [← rest, Outer, Store.outer?_newScope]
    rcases solid_add here with known | ⟨rfl, rfl, solid⟩
    · rw [if_neg (away known.known), (old id' (stores.there known.known)).2.2]
      exact rel_imp (stores.outer known) fun _ _ lies => ⟨lies.1, lies.2.1, lies.2.2.mono more⟩
    · rw [if_pos last, (own solid).2.outer]
      exact .some ⟨last ▸ within, Nat.lt_of_lt_of_le beyond (Nat.le_of_not_lt (own solid).1), known.mono more⟩
  · rw [bindings_newScope, Store.outer?_newScope]
    rcases at_add.1 here with known | ⟨_, rfl⟩
    · rw [if_neg (away ⟨_, known⟩)]
      exact stores.settled known
    · rcases new with hollow | ⟨free, _⟩
      · cases hollow
      · cases free
  · simp only [bindings_newScope, Store.outer?_newScope]
    rcases at_add.1 here with known | ⟨rfl, rfl⟩
    · obtain ⟨silent, outer, lies, older, within⟩ := stores.hollow known
      exact ⟨silent, outer, (if_neg (away ⟨_, known⟩)).trans lies, older, within.mono more⟩
    · rcases new with hollow | ⟨free, _⟩
      · cases hollow
        refine ⟨fun name => ?_, outer, if_pos last, last ▸ within, known.mono more⟩
        simp [nothing, Table.contains, Table.get?, Table.empty]
      · cases free

/-- Both stores get a scope, in which names may be bound. -/
theorem newScope (stores : p.Stores s s') (known : p.Known outer outer') :
    (p.add ⟨s'.scopes.size, .free⟩).Stores (s.newScope (some outer)).2 (s'.newScope (some outer')).2 := by
  refine stores.grow known rfl (fun id has => ⟨?_, bindings_newScope s' _ id, ?_⟩)
    (.inr ⟨rfl, Nat.lt_irrefl _, Store.newScope_lies s' outer'⟩)
  · exact Nat.lt_of_lt_of_eq (Nat.lt_succ_of_lt has) (Array.size_push _).symm
  · rw [Store.outer?_newScope, if_neg (Nat.ne_of_lt has)]

/-- Only the first store gets a scope, in which no names will be bound. -/
theorem newHollow (stores : p.Stores s s') (known : p.Known outer outer') :
    (p.add ⟨outer', .hollow⟩).Stores (s.newScope (some outer)).2 s' :=
  stores.grow known rfl (fun _ has => ⟨has, rfl, rfl⟩) (.inl rfl)

end Stores

/-- Every scope stands for itself. -/
def start (s : Store) (kind : ScopeId → Seat.Kind) : Seats := ⟨(List.range s.scopes.size).map fun id => ⟨id, kind id⟩⟩

theorem at_start {kind : ScopeId → Seat.Kind} :
    (start s kind).At id seat ↔ s.Has (.scope id) ∧ ⟨id, kind id⟩ = seat := by
  rw [At, start, List.getElem?_map, Option.map_eq_some_iff]
  constructor
  · rintro ⟨k, found, same⟩
    obtain ⟨lower, rfl⟩ := List.getElem?_eq_some_iff.1 found
    rw [List.getElem_range] at same
    exact ⟨Nat.lt_of_lt_of_eq lower List.length_range, same⟩
  · rintro ⟨has, same⟩
    exact ⟨id, List.getElem?_range has, same⟩

theorem Stores.start {kind : ScopeId → Seat.Kind} (placed : s.Placed)
    (visible : ∀ id, kind id = .free ∨ kind id = .settled (s.bindings id).contains (s.outer? id)) :
    (Seats.start s kind).Stores s s := by
  have known {id : ScopeId} (has : s.Has (.scope id)) : (Seats.start s kind).Known id id := ⟨_, at_start.2 ⟨has, rfl⟩⟩
  have place {id id' : ScopeId} (known : (Seats.start s kind).Known id id') : s.Has (.scope id) ∧ id' = id := by
    obtain ⟨_, here⟩ := known
    obtain ⟨has, same⟩ := at_start.1 here
    cases same
    exact ⟨has, rfl⟩
  refine ⟨rfl, rfl, rfl, ⟨by simp, fun i => ?_⟩, by simp [Seats.start], fun {id id'} here => ?_,
    fun {id id' other} here there => ?_, fun {id id'} here => ?_, fun {id id'} here => ?_,
    fun {id id' binds out} here => ?_, fun {id id'} here => ?_⟩
  · rw [Array.size_empty, Nat.zero_add]
    cases found : s.closures[i]? with
    | none => exact .none
    | some c => exact .some ⟨rfl, known (placed.closures i c found)⟩
  · obtain ⟨has, rfl⟩ := place here
    exact has
  · exact (place there.known).2.symm.trans (place here.known).2
  · rw [(place here.known).2]
  · obtain ⟨has, rfl⟩ := place here.known
    unfold Outer
    cases lies : s.outer? id' with
    | none => exact .none
    | some outer =>
      have older := placed.older id' outer lies
      exact .some ⟨older, older, known (Nat.lt_trans older has)⟩
  · have kinds := congrArg Seat.kind (at_start.1 here).2
    rcases visible id with free | settled
    · cases free.symm.trans kinds
    · cases settled.symm.trans kinds
      exact ⟨fun _ => rfl, rfl⟩
  · have kinds := congrArg Seat.kind (at_start.1 here).2
    rcases visible id with free | settled
    · cases free.symm.trans kinds
    · cases settled.symm.trans kinds

/-- All scopes of a store, in which names may be bound. -/
def free (s : Store) : Seats := start s fun _ => .free

/-- All scopes of a store, in which no other names will be bound. -/
def settled (s : Store) : Seats := start s fun id => .settled (s.bindings id).contains (s.outer? id)

theorem free_free (has : s.Has (.scope id)) : (free s).Free id id := at_start.2 ⟨has, rfl⟩

theorem Stores.of_free (placed : s.Placed) : (Seats.free s).Stores s s := .start placed fun _ => .inl rfl

theorem Stores.of_settled (placed : s.Placed) : (Seats.settled s).Stores s s := .start placed fun _ => .inr rfl

/-- In settled scopes each name is bound where it was bound before. -/
theorem Stores.restored {before : Store} (placed : before.Placed) (old : (Seats.settled before).Before p)
    (stores : p.Stores s s') (has : before.Has (.scope id)) (name : Text) :
    s.binder? id name = before.binder? id name :=
  Store.binder?_congr placed (fun _ has => stores.settled (At.mono (at_start.2 ⟨has, rfl⟩) old)) has name

end Seats

end TinyScript
