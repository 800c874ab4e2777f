import TinyScript.Proofs.Evaluation.Moved
import TinyScript.Proofs.Evaluation.Purity
import TinyScript.Proofs.Evaluation.Repeating
import TinyScript.Proofs.Store.Liveness

namespace TinyScript

open Evaluation

variable {α β γ : Type}

/-- What stood below `low` stays in its place, and all else moves up by the distance to `high`. -/
def shifted (low high id : Nat) : Nat := if id < low then id else id + (high - low)

theorem shifted_old {low high id : Nat} (old : id < low) : shifted low high id = id := if_pos old

theorem shifted_new {low high id : Nat} (new : ¬ id < low) : shifted low high id = id + (high - low) := if_neg new

theorem shifted_injective (low high : Nat) : Function.Injective (shifted low high) := by
  intro i j same
  unfold shifted at same
  split at same <;> split at same <;> omega

/-- Where a run from the second store puts what a run from the first one puts behind it. -/
def Store.again (s s' : Store) : Move where
  array := shifted s.arrays.size s'.arrays.size
  object := shifted s.objects.size s'.objects.size
  closure := shifted s.closures.size s'.closures.size
  array_injective := shifted_injective _ _
  object_injective := shifted_injective _ _
  closure_injective := shifted_injective _ _

variable {s s' : Store} {v : Value} {line : Nat}

/-- Values of the first store stay what they are. -/
theorem Store.Knows.again (knows : s.Knows v) : (s.again s').value v = v := by
  cases v with
  | array id => exact congrArg Value.array (shifted_old (knows _ rfl))
  | object id => exact congrArg Value.object (shifted_old (knows _ rfl))
  | closure id => exact congrArg Value.closure (shifted_old (knows _ rfl))
  | _ => rfl

/-- From some place on the second list shows what the first one shows, further up by a distance. -/
structure Raised (f : α → γ) (g : β → γ) (low distance : Nat) (xs : Array α) (ys : Array β) : Prop where
  size : ys.size = xs.size + distance
  get : ∀ i, ¬ i < low → ys[i + distance]?.map g = xs[i]?.map f

namespace Raised

variable {f : α → γ} {g : β → γ} {low high distance : Nat} {xs : Array α} {ys : Array β}

/-- Where two lists end there is nothing yet. -/
theorem start {xs : Array α} {ys : Array β} (more : xs.size ≤ ys.size) :
    Raised f g xs.size (ys.size - xs.size) xs ys where
  size := by omega
  get i new := by
    rw [Array.getElem?_eq_none (Nat.not_lt.1 new), Array.getElem?_eq_none (by omega)]
    rfl

theorem push (raised : Raised f g low distance xs ys) {a : α} {b : β} (same : g b = f a) :
    Raised f g low distance (xs.push a) (ys.push b) where
  size := by rw [Array.size_push, Array.size_push, raised.size, Nat.add_right_comm]
  get i new := by
    have ends : i + distance = ys.size ↔ i = xs.size := by
      rw [raised.size]
      omega
    rw [Array.getElem?_push, Array.getElem?_push]
    by_cases last : i = xs.size
    · rw [if_pos last, if_pos (ends.2 last)]
      exact congrArg some same
    · rw [if_neg last, if_neg fun equal => last (ends.1 equal)]
      exact raised.get i new

/-- The next free place in the second list. -/
theorem next (raised : Raised f g low (high - low) xs ys) (more : low ≤ xs.size) :
    ys.size = shifted low high xs.size := by rw [shifted_new (Nat.not_lt.2 more), raised.size]

end Raised

/-- The second state has what the first one has on top of the store that it began with, on top of its own. -/
structure Repeats (s s' : Store) (st st' : State) : Prop where
  first : s.Extends st.store
  second : s'.Extends st'.store
  arrays : Raised (Array.map (s.again s').value) id s.arrays.size (s'.arrays.size - s.arrays.size) st.store.arrays
    st'.store.arrays
  objects : Raised (Table.map (s.again s').value) id s.objects.size (s'.objects.size - s.objects.size) st.store.objects
    st'.store.objects
  closures : Raised (·.literal.name) (·.literal.name) s.closures.size (s'.closures.size - s.closures.size)
    st.store.closures st'.store.closures

namespace Repeats

variable {st st' : State}

theorem start (grown : st.store.Extends st'.store) : Repeats st.store st'.store st st' :=
  ⟨.refl _, .refl _, .start grown.arrays.length_le, .start grown.objects.length_le, .start grown.closures.length_le⟩

/-- What the first run can read the second one can read. -/
theorem reads (repeats : Repeats s s' st st') (closed : s.Closed) (grown : s.Extends s') :
    (s.again s').Reads st.store st'.store where
  elements id := by
    by_cases old : s.Has (.array id)
    · have there : (s.again s').array id = id := shifted_old old
      have known (v : Value) (mem : v ∈ s.elements id) : (s.again s').value v = v :=
        Store.Knows.again (closed.held (n := .array id) (Array.mem_toList_iff.2 mem))
      rw [there, repeats.second.elements (grown.has old), grown.elements old, repeats.first.elements old,
        Array.map_congr_left known, Array.map_id']
    · have there : (s.again s').array id = id + (s'.arrays.size - s.arrays.size) := shifted_new old
      have found := repeats.arrays.get id old
      rw [Option.map_id, id_eq] at found
      rw [there, Store.elements, Store.elements, found]
      cases st.store.arrays[id]? <;> simp
  entries id := by
    by_cases old : s.Has (.object id)
    · have there : (s.again s').object id = id := shifted_old old
      have known (key : Text) : ((s.entries id).map (s.again s').value).get? key = (s.entries id).get? key := by
        rw [Table.get?_map]
        cases found : (s.entries id).get? key with
        | none => rfl
        | some v =>
          have knows : s.Knows v := closed.held (n := .object id) (Table.mem_values_of_get? found)
          rw [Option.map_some, knows.again]
      rw [there, repeats.second.entries (grown.has old), grown.entries old, repeats.first.entries old]
      exact (Table.eq_of_get? known).symm
    · have there : (s.again s').object id = id + (s'.objects.size - s.objects.size) := shifted_new old
      have found := repeats.objects.get id old
      rw [Option.map_id, id_eq] at found
      rw [there, Store.entries, Store.entries, found]
      cases st.store.objects[id]? <;> rfl
  functionText id := by
    by_cases old : s.Has (.closure id)
    · have there : (s.again s').closure id = id := shifted_old old
      rw [there, Store.functionText, Store.functionText, repeats.second.closure (grown.has old), grown.closure old,
        repeats.first.closure old]
    · have there : (s.again s').closure id = id + (s'.closures.size - s.closures.size) := shifted_new old
      rw [there, Store.functionText, Store.functionText, repeats.closures.get id old]
  aggregateCount := by
    unfold Store.aggregateCount
    rw [repeats.arrays.size, repeats.objects.size]
    omega

theorem newArray (repeats : Repeats s s' st st') (elements : Array Value) :
    Repeats s s' { st with store := (st.store.newArray elements).2 }
      { st' with store := (st'.store.newArray (elements.map (s.again s').value)).2 } :=
  ⟨repeats.first.trans (.newArray _ _), repeats.second.trans (.newArray _ _), repeats.arrays.push rfl, repeats.objects,
    repeats.closures⟩

theorem newObject (repeats : Repeats s s' st st') (entries : Table Value) :
    Repeats s s' { st with store := (st.store.newObject entries).2 }
      { st' with store := (st'.store.newObject (entries.map (s.again s').value)).2 } :=
  ⟨repeats.first.trans (.newObject _ _), repeats.second.trans (.newObject _ _), repeats.arrays,
    repeats.objects.push rfl, repeats.closures⟩

theorem newClosure (repeats : Repeats s s' st st') (literal : FunctionLiteral) (scope scope' : ScopeId) :
    Repeats s s' { st with store := (st.store.newClosure literal scope).2 }
      { st' with store := (st'.store.newClosure literal scope').2 } :=
  ⟨repeats.first.trans (.newClosure _ _ _), repeats.second.trans (.newClosure _ _ _), repeats.arrays, repeats.objects,
    repeats.closures.push rfl⟩

/-- What scopes there are besides those of the first store does not matter. -/
theorem scopes (repeats : Repeats s s' st st') {scopes scopes' : Array Scope}
    (first : s.scopes.toList <+: scopes.toList) (second : s'.scopes.toList <+: scopes'.toList) :
    Repeats s s' { st with store := { st.store with scopes := scopes } }
      { st' with store := { st'.store with scopes := scopes' } } :=
  ⟨{ repeats.first with scopes := first }, { repeats.second with scopes := second }, repeats.arrays, repeats.objects,
    repeats.closures⟩

end Repeats

/-- From states of which the second one repeats the first one the runs end alike. -/
abbrev Run.Repeated (s s' : Store) (G : α → β → Prop) (x : Run α) (y : Run β) : Prop := x.Like (Repeats s s') Eq G y

/-- The expression is evaluated to the same value again, in any scope of the first store. -/
def Expr.Again (s s' : Store) (e : Expr) : Prop := ∀ n context, s.Has (.scope context.scope) →
  (eval n context e).Repeated s s' (s.again s').Same (eval n context e)

theorem keeping_repeated {x y : Run Value} (repeated : x.Repeated s s' (s.again s').Same y) :
    x.keeping.Repeated s s' (s.again s').Same y.keeping :=
  repeated.bind fun v w same => Run.Like.bind (G := fun _ _ => True) (x := Run.keep v) (y := Run.keep w)
    (fun _ _ repeats => .done trivial
      ⟨repeats.first, repeats.second, repeats.arrays, repeats.objects, repeats.closures⟩)
    fun _ _ _ => .pure same

theorem variableValue_repeated (closed : s.Closed) (grown : s.Extends s') {context : Context}
    (has : s.Has (.scope context.scope)) (line : Nat) (name : Text) :
    (variableValue context line name).Repeated s s' (s.again s').Same (variableValue context line name) := by
  refine (Run.Like.reading (G := fun a b => b = s.lookup context.scope name ∧ a = b) fun st st' repeats => ?_).bind ?_
  · have second := (repeats.second.lookup (grown.has has) name).trans (grown.lookup has name)
    exact ⟨second, (repeats.first.lookup has name).trans second.symm⟩
  · rintro _ _ ⟨rfl, rfl⟩
    cases found : s.lookup context.scope name with
    | none => exact .fail rfl
    | some v => exact .pure (closed.lookup found).again.symm

theorem functionValue_repeated (context : Context) (literal : FunctionLiteral) :
    (functionValue context literal).Repeated s s' (s.again s').Same (functionValue context literal) := by
  intro st st' repeats
  have place (repeats : Repeats s s' st st') : (s.again s').Same (.closure st.store.closures.size)
      (.closure st'.store.closures.size) :=
    congrArg Value.closure (repeats.closures.next repeats.first.closures.length_le)
  unfold functionValue
  split
  · exact .done (place repeats) (repeats.newClosure literal _ _)
  · have grown := (Store.Extends.newScope st.store (some context.scope)).trans
      (.newClosure _ literal st.store.scopes.size)
    have grown' := (Store.Extends.newScope st'.store (some context.scope)).trans
      (.newClosure _ literal st'.store.scopes.size)
    refine .done (place repeats) ((repeats.newClosure literal st.store.scopes.size st'.store.scopes.size).scopes ?_ ?_)
    · exact ((repeats.first.trans grown).define (mt repeats.first.has (Nat.lt_irrefl _)) _ _).scopes
    · exact ((repeats.second.trans grown').define (mt repeats.second.has (Nat.lt_irrefl _)) _ _).scopes

theorem newArray_repeated (elements : Array Value) :
    Run.Repeated s s' (s.again s').Same (do return .array (← .creating (·.newArray elements)))
      (do return .array (← .creating (·.newArray (elements.map (s.again s').value)))) := fun _ _ repeats =>
  .done (congrArg Value.array (repeats.arrays.next repeats.first.arrays.length_le)) (repeats.newArray elements)

theorem newObject_repeated (entries : Table Value) :
    Run.Repeated s s' (s.again s').Same (do return .object (← .creating (·.newObject entries)))
      (do return .object (← .creating (·.newObject (entries.map (s.again s').value)))) := fun _ _ repeats =>
  .done (congrArg Value.object (repeats.objects.next repeats.first.objects.length_le)) (repeats.newObject entries)

variable {n : Nat} {context : Context}

theorem evalAll_repeated {es : List Expr} (again : ∀ e ∈ es, e.Again s s') (has : s.Has (.scope context.scope))
    (values : List Value) : (evalAll n context values es).Repeated s s'
      (fun vs ws => ws = vs.map (s.again s').value) (evalAll n context (values.map (s.again s').value) es) := by
  induction n generalizing es values with
  | zero => exact fun _ _ _ => .unfinished
  | succ n ih =>
    cases es with
    | nil => exact .pure (List.map_reverse ..).symm
    | cons e es =>
      obtain ⟨here, later⟩ := List.forall_mem_cons.1 again
      refine (here n context has).bind fun v w same => ?_
      rw [same]
      exact ih later (v :: values)

theorem evalPairs_repeated {pairs : List (Text × Expr)} (again : ∀ pair ∈ pairs, pair.2.Again s s')
    (has : s.Has (.scope context.scope)) (entries : List (Text × Value)) :
    (evalPairs n context entries pairs).Repeated s s'
      (fun vs ws => ws = vs.map fun e => (e.1, (s.again s').value e.2))
      (evalPairs n context (entries.map fun e => (e.1, (s.again s').value e.2)) pairs) := by
  induction n generalizing pairs entries with
  | zero => exact fun _ _ _ => .unfinished
  | succ n ih =>
    cases pairs with
    | nil => exact .pure (List.map_reverse ..).symm
    | cons pair pairs =>
      obtain ⟨key, e⟩ := pair
      obtain ⟨here, later⟩ := List.forall_mem_cons.1 again
      refine (here n context has).bind fun v w same => ?_
      rw [same]
      exact ih later ((key, v) :: entries)

/-- Whatever an expression has been evaluated to, in the grown store it is evaluated to the same once more. -/
theorem Expr.Pure.again {e : Expr} (pure : e.Pure) (closed : s.Closed) (grown : s.Extends s') : e.Again s s' := by
  have reads (st st' : State) (repeats : Repeats s s' st st') := repeats.reads closed grown
  have errors (line : Nat) (fault : Fault) (_ : ∀ name, fault ≠ .undefinedVariable name) :
      (⟨line, fault⟩ : RuntimeError) = ⟨line, fault⟩ := rfl
  induction pure with (
    rintro (_ | n) context has
    · exact fun _ _ _ => .unfinished
    have has : s.Has (.scope context.inside.scope) := has
    refine keeping_repeated ?_)
  | identifier location name => exact variableValue_repeated closed grown has _ _
  | number | string | boolean | null => exact .pure rfl
  | function literal => exact functionValue_repeated _ literal
  | array location _ ih =>
    refine (evalAll_repeated ih has []).bind fun vs ws same => ?_
    rw [same, ← List.map_toArray]
    exact newArray_repeated vs.toArray
  | object location _ ih =>
    refine (evalPairs_repeated ih has []).bind fun vs ws same => ?_
    rw [same, Table.ofList_map]
    exact newObject_repeated (.ofList vs)
  | unary location op _ ih => exact (ih n _ has).bind fun v w same => same ▸ Move.unary (errors _) op v
  | binary location op _ _ left right =>
    refine (left n _ has).bind fun v v' first => (right n _ has).bind fun w w' second => ?_
    rw [first, second]
    exact Move.binary reads (errors _) op v w
  | logical location op _ _ left right =>
    refine (left n _ has).bind fun v w same => ?_
    rw [same, Move.settles_value]
    split
    · exact .pure rfl
    · exact right n _ has
  | index location _ _ left index =>
    refine (left n _ has).bind fun v v' first => (index n _ has).bind fun w w' second => ?_
    rw [first, second]
    exact Move.index reads (errors _) v w

/-- The runs end with the same error, or with values that are printed alike. -/
inductive Outcome.PrintedAlike : Outcome Value → Outcome Value → Prop
  | done {v w : Value} {st st' : State} : st'.store.display w = st.store.display v →
    st'.store.inspect w = st.store.inspect v → PrintedAlike (done v st) (done w st')
  | failed (error : RuntimeError) (st st' : State) : PrintedAlike (failed error st) (failed error st')

/-- An expression without calls and assignments, those in the bodies of functions apart, comes to an end in any scope
of any store, with a value or with an error. All that was there before is unchanged then, and nothing has been printed.
When all is there that the store refers to, and the expression is evaluated once more behind that, it ends in this way
again, with the same error or with a value that is printed alike. -/
theorem Expr.Pure.repeats {e : Expr} (pure : e.Pure) : ∃ steps, ∀ (context : Context) (st : State), ∃ o : Outcome Value,
    (∀ n ≥ steps, eval n context e st = o) ∧ o.Quiet st ∧
      (st.store.Closed → st.store.Has (.scope context.scope) → ∀ st', o.state? = some st' → ∃ o' : Outcome Value,
        (∀ n ≥ steps, eval n context e st' = o') ∧ o'.Quiet st' ∧ o.PrintedAlike o') := by
  have quiet (context : Context) (st : State) : (eval (sizeOf e) context e st).Quiet st :=
    pure.quiet _ le_rfl context st
  have settled (context : Context) (st : State) (n : Nat) (enough : n ≥ sizeOf e) :
      eval n context e st = eval (sizeOf e) context e st := by
    refine Run.Below.eval enough context e st fun unfinished => ?_
    have ended := quiet context st
    rw [unfinished] at ended
    exact ended
  refine ⟨sizeOf e, fun context st => ⟨_, settled context st, quiet context st, fun closed has st' ends => ?_⟩⟩
  refine ⟨_, settled context st', quiet context st', ?_⟩
  have grown : st.store.Extends st'.store := (quiet context st).untouched ends |>.store
  have alike := pure.again closed grown (sizeOf e) context has st st' (.start grown)
  have first := quiet context st
  revert alike first
  generalize eval (sizeOf e) context e st = o
  generalize eval (sizeOf e) context e st' = o'
  rintro (⟨same, repeats⟩ | ⟨same, -⟩ | _) first
  · have reads := repeats.reads closed grown
    cases same
    exact .done (reads.display _) (reads.inspect _)
  · cases same
    exact .failed _ _ _
  · exact first.elim

theorem Store.closed_of_nodes (referred : ∀ n ∈ s.nodes, ∀ m ∈ s.edges n, m ∈ s.nodes) : s.Closed :=
  fun n m edge => Store.mem_nodes.1 (referred n (Store.mem_nodes.2 (Store.Refers.has edge)) m edge)

/-- A scope that binds an array which leads to objects that hold each other. -/
def Store.boundRing : Store := { Store.ring with scopes := #[⟨.ofList [("a", .array 0)], none⟩] }

/-- What holds itself is printed and put into a new array, twice. -/
theorem Expr.Pure.repeats_boundRing :
    let a : Expr := .identifier ⟨1, 1⟩ "a"
    let e : Expr := .array ⟨1, 1⟩ [a, .binary ⟨1, 1⟩ .add (.string ⟨1, 1⟩ "") a]
    let context : Context := ⟨0, 0, 0, 0, 0⟩
    let st : State := ⟨.boundRing, #[], .null⟩
    e.Pure ∧ st.store.Closed ∧ st.store.Has (.scope context.scope) ∧ ∃ steps o o' st',
      (∀ n ≥ steps, eval n context e st = o) ∧ o.Quiet st ∧ o.state? = some st' ∧
      (∀ n ≥ steps, eval n context e st' = o') ∧ o'.Quiet st' ∧ o.PrintedAlike o' := by
  intro a e context st
  have name : a.Pure := .identifier _ _
  have pure : e.Pure := .array _ (List.forall_mem_cons.2
    ⟨name, List.forall_mem_singleton.2 (.binary _ _ (.string _ _) name)⟩)
  have closed : st.store.Closed := Store.closed_of_nodes (by decide)
  have has : st.store.Has (.scope context.scope) := Nat.zero_lt_one
  obtain ⟨steps, repeats⟩ := pure.repeats
  obtain ⟨o, first, quiet, again⟩ := repeats context st
  obtain ⟨st', ends⟩ : ∃ st', o.state? = some st' := by
    cases o with
    | done _ st' | failed _ st' => exact ⟨st', rfl⟩
    | unfinished => exact quiet.elim
  obtain ⟨o', second, quiet', alike⟩ := again closed has st' ends
  exact ⟨pure, closed, has, steps, o, o', st', first, quiet, ends, second, quiet', alike⟩

end TinyScript
