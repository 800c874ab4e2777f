import TinyScript.Evaluation
import TinyScript.Proofs.Evaluation.Moved
import TinyScript.Proofs.Guise.Stores

namespace TinyScript

variable {α β γ δ : Type}

namespace Guise

variable (g : Guise)

/-- The same state in another guise. -/
structure States (st st' : State) : Prop where
  store : g.Stores st.store st'.store
  printed : st'.printed = g.printed ++ st.printed
  latest : g.sameLatest → st'.latest = g.value st.latest

/-- The same fault. When a variable is missing, the missing one has the other name. -/
inductive Faults : Fault → Fault → Prop
  | undefinedVariable {a b : Text} : g.name a b → Faults (.undefinedVariable a) (.undefinedVariable b)
  | same {f : Fault} : (∀ name, f ≠ .undefinedVariable name) → Faults f f

/-- A builtin refuses an argument of a kind, whatever the guise. -/
theorem Faults.argument (which : Builtin) (kind : Value.Kind) :
    g.Faults (.argument which kind) (.argument which kind) :=
  .same fun name equal => by cases equal

structure Errors (e e' : RuntimeError) : Prop where
  line : g.Lines e.line e'.line
  fault : g.Faults e.fault e'.fault

/-- Outcomes of runs in different guises whose results are related. -/
inductive Outcomes (G : α → β → Prop) : Outcome α → Outcome β → Prop
  | done {a : α} {b : β} {st st' : State} : G a b → g.States st st' → Outcomes G (.done a st) (.done b st')
  | failed {e e' : RuntimeError} {st st' : State} : g.Errors e e' → g.States st st' →
      Outcomes G (.failed e st) (.failed e' st')
  | unfinished : Outcomes G .unfinished .unfinished

/-- From the same state in another guise the second run does what the first one does. -/
def Runs (G : α → β → Prop) (x : Run α) (y : Run β) : Prop :=
  ∀ st st', g.States st st' → g.Outcomes G (x st) (y st')

structure Contexts (c c' : Context) : Prop where
  scope : c'.scope = g.scope c.scope
  depth : c'.depth = c.depth
  limit : c'.limit = c.limit
  room : c'.room = c.room
  time : c'.time = g.time c.time

/-- The same values in the other store. -/
def Same (v w : Value) : Prop := w = g.value v

def SameAll (vs ws : List Value) : Prop := ws = vs.map g.value

def SamePairs (ps qs : List (Text × Value)) : Prop := qs = ps.map fun e => (e.1, g.value e.2)

def completion : Completion → Completion
  | .normal value => .normal (value.map g.value)
  | .returned value => .returned (g.value value)

def Completions (c d : Completion) : Prop := d = g.completion c

variable {g} {G : α → β → Prop} {H : γ → δ → Prop} {line line' : Nat} {a b : Text} {v w : Value} {c c' : Context}
  {now later : Float}

theorem Contexts.inside (like : g.Contexts c c') : g.Contexts c.inside c'.inside :=
  ⟨like.scope, like.depth, like.limit, congrArg (· - 1) like.room, like.time⟩

theorem Contexts.inScope (like : g.Contexts c c') (id : ScopeId) :
    g.Contexts { c with scope := id } { c' with scope := g.scope id } :=
  ⟨rfl, like.depth, like.limit, like.room, like.time⟩

theorem Contexts.called (like : g.Contexts c c') (locals : ScopeId) :
    g.Contexts (c.called locals) (c'.called (g.scope locals)) :=
  ⟨rfl, congrArg (· + 1) like.depth, like.limit, congrArg (· - Context.callRoom) like.room, like.time⟩

theorem Contexts.isFull (like : g.Contexts c c') : c'.isFull = c.isFull := by
  rw [Context.isFull, Context.isFull, like.depth, like.limit, like.room]

theorem settles_value (op : LogicalOperator) (v : Value) : op.settles (g.value v) = op.settles v := by
  rw [value_eq_move, Move.settles_value]

namespace Runs

theorem bind {x : Run α} {y : Run β} {f : α → Run γ} {h : β → Run δ} (first : g.Runs G x y)
    (later : ∀ a b, G a b → g.Runs H (f a) (h b)) : g.Runs H (x >>= f) (y >>= h) := by
  intro st st' like
  have both := first st st' like
  rw [Run.bind_apply, Run.bind_apply]
  revert both
  generalize x st = o
  generalize y st' = o'
  rintro (⟨related, like⟩ | ⟨error, like⟩ | _)
  · exact later _ _ related _ _ like
  · exact .failed error like
  · exact .unfinished

theorem pure {a : α} {b : β} (related : G a b) : g.Runs G (Pure.pure a : Run α) (Pure.pure b) :=
  fun _ _ like => .done related like

theorem fail {f f' : Fault} (lines : g.Lines line line') (faults : g.Faults f f') :
    g.Runs G (Run.fail line f : Run α) (Run.fail line' f' : Run β) :=
  fun _ _ like => .failed ⟨lines, faults⟩ like

theorem reading {f : Store → α} {h : Store → β} (related : ∀ s s', g.Stores s s' → G (f s) (h s')) :
    g.Runs G (Run.reading f) (Run.reading h) :=
  fun _ _ like => .done (related _ _ like.store) like

theorem creating {f : Store → α × Store} {h : Store → β × Store}
    (related : ∀ s s', g.Stores s s' → G (f s).1 (h s').1 ∧ g.Stores (f s).2 (h s').2) :
    g.Runs G (Run.creating f) (Run.creating h) :=
  fun _ _ like => .done (related _ _ like.store).1 ⟨(related _ _ like.store).2, like.printed, like.latest⟩

theorem changing {f h : Store → Store} (related : ∀ s s', g.Stores s s' → g.Stores (f s) (h s')) :
    g.Runs (fun _ _ => True) (Run.changing f) (Run.changing h) :=
  fun _ _ like => .done trivial ⟨related _ _ like.store, like.printed, like.latest⟩

theorem keep (same : g.Same v w) : g.Runs (fun _ _ => True) (Run.keep v) (Run.keep w) :=
  fun _ _ like => .done trivial ⟨like.store, like.printed, fun _ => same⟩

theorem print (t : Text) : g.Runs (fun _ _ => True) (Run.print t) (Run.print t) := by
  intro st st' like
  refine .done trivial ⟨like.store, ?_, like.latest⟩
  show st'.printed.push t = g.printed ++ st.printed.push t
  rw [like.printed, Array.append_push]

/-- What does alike with values in other places does the same in another guise. -/
theorem of_like {x y : Run Value} (like : x.Like g.States g.Errors g.move.Same y) : g.Runs g.Same x y := by
  intro st st' states
  have both := like st st' states
  revert both
  generalize x st = o
  generalize y st' = o'
  rintro (⟨same, states⟩ | ⟨errors, states⟩ | _)
  · exact .done (same.trans (value_eq_move _ _).symm) states
  · exact .failed errors states
  · exact .unfinished

theorem errors_of_lines (lines : g.Lines line line') (fault : Fault) (known : ∀ name, fault ≠ .undefinedVariable name) :
    g.Errors ⟨line, fault⟩ ⟨line', fault⟩ := ⟨lines, .same known⟩

theorem binary (op : BinaryOperator) (lines : g.Lines line line') (v w : Value) :
    g.Runs g.Same (op.apply line v w) (op.apply line' (g.value v) (g.value w)) := by
  rw [value_eq_move, value_eq_move]
  exact of_like (Move.binary (fun _ _ states => states.store.reads) (errors_of_lines lines) op v w)

theorem unary (op : UnaryOperator) (lines : g.Lines line line') (v : Value) :
    g.Runs g.Same (op.apply line v) (op.apply line' (g.value v)) := by
  rw [value_eq_move]
  exact of_like (Move.unary (errors_of_lines lines) op v)

theorem index (lines : g.Lines line line') (v i : Value) :
    g.Runs g.Same (v.at line i) ((g.value v).at line' (g.value i)) := by
  rw [value_eq_move, value_eq_move]
  exact of_like (Move.index (fun _ _ states => states.store.reads) (errors_of_lines lines) v i)

theorem printing (now later : Float) (line line' : Nat) (vs : List Value) :
    g.Runs g.Same (Builtin.print.body now line vs) (Builtin.print.body later line' (vs.map g.value)) := by
  refine (reading (G := fun texts texts' => texts' = texts) fun _ _ like => ?_).bind fun texts _ same => ?_
  · rw [List.map_map]
    exact List.map_congr_left fun v _ => like.display v
  · rw [same]
    exact (print _).bind fun _ _ _ => pure rfl

theorem length (lines : g.Lines line line') (v : Value) :
    g.Runs g.Same (Builtin.len.body now line [v]) (Builtin.len.body later line' [g.value v]) := by
  cases v with
  | string => exact pure rfl
  | array id =>
    show g.Runs g.Same (.reading fun s => .number (Exact.ofNat (s.elements id).size))
      (.reading fun s => .number (Exact.ofNat (s.elements (g.array id)).size))
    refine reading fun _ _ like => ?_
    rw [like.elements, Array.size_map]
    rfl
  | object id =>
    show g.Runs g.Same (.reading fun s => .number (Exact.ofNat (s.entries id).size))
      (.reading fun s => .number (Exact.ofNat (s.entries (g.object id)).size))
    refine reading fun _ _ like => ?_
    rw [Table.size, Table.size, like.entries, List.length_map]
    rfl
  | _ => exact fail lines (.argument g _ _)

theorem first (lines : g.Lines line line') (v : Value) :
    g.Runs g.Same (Builtin.first.body now line [v]) (Builtin.first.body later line' [g.value v]) := by
  cases v with
  | string t =>
    refine pure ?_
    cases t.get? 0 <;> rfl
  | array id =>
    show g.Runs g.Same (.reading fun s => (s.elements id)[0]?.getD .null)
      (.reading fun s => (s.elements (g.array id))[0]?.getD .null)
    refine reading fun s _ like => ?_
    rw [like.elements, Array.getElem?_map]
    cases (s.elements id)[0]? <;> rfl
  | _ => exact fail lines (.argument g _ _)

theorem last (lines : g.Lines line line') (v : Value) :
    g.Runs g.Same (Builtin.last.body now line [v]) (Builtin.last.body later line' [g.value v]) := by
  cases v with
  | string t =>
    refine pure ?_
    cases t.get? (t.size - 1) <;> rfl
  | array id =>
    show g.Runs g.Same (.reading fun s => (s.elements id).back?.getD .null)
      (.reading fun s => (s.elements (g.array id)).back?.getD .null)
    refine reading fun s _ like => ?_
    rw [like.elements, Array.back?_map]
    cases (s.elements id).back? <;> rfl
  | _ => exact fail lines (.argument g _ _)

theorem rest (lines : g.Lines line line') (v : Value) :
    g.Runs g.Same (Builtin.rest.body now line [v]) (Builtin.rest.body later line' [g.value v]) := by
  cases v with
  | string t =>
    refine pure ?_
    show (if t.size = 0 then Value.null else .string t.tail) = g.value (if t.size = 0 then .null else .string t.tail)
    split <;> rfl
  | array id =>
    refine (reading (G := fun a b => b = a.map g.value) fun _ _ like => like.elements id).bind fun elements _ same => ?_
    rw [same, Array.isEmpty, Array.isEmpty, Array.size_map]
    split
    · exact pure rfl
    · rw [← Array.map_extract]
      have array : g.Runs (fun a b => b = g.array a) (.creating (·.newArray (elements.extract 1 elements.size)))
          (.creating (·.newArray ((elements.extract 1 elements.size).map g.value))) :=
        creating fun _ _ like => like.newArray _
      exact array.bind fun a b same => pure (by rw [same]; rfl)
  | _ => exact fail lines (.argument g _ _)

theorem push (lines : g.Lines line line') (v w : Value) :
    g.Runs g.Same (Builtin.push.body now line [v, w]) (Builtin.push.body later line' [g.value v, g.value w]) := by
  cases v with
  | array id => exact (changing fun _ _ like => like.append id w).bind fun _ _ _ => pure rfl
  | _ => exact fail lines (.argument g _ _)

theorem str (v : Value) :
    g.Runs g.Same (Builtin.str.body now line [v]) (Builtin.str.body later line' [g.value v]) := by
  show g.Runs g.Same (.reading fun s => .string (s.packed v)) (.reading fun s => .string (s.packed (g.value v)))
  exact reading fun _ _ like => congrArg Value.string (like.packed v)

/-- A builtin does the same, unless it is the clock and the clock shows something else. -/
theorem builtin {which : Builtin} (clock : which = .clock → later = now) (lines : g.Lines line line')
    (vs : List Value) : g.Runs g.Same (which.apply now line vs) (which.apply later line' (vs.map g.value)) := by
  have counted (expected : Nat) (body : vs.length = expected →
      g.Runs g.Same (which.body now line vs) (which.body later line' (vs.map g.value))) :
      g.Runs g.Same
        (if vs.length = expected then which.body now line vs else .fail line (.argumentCount expected vs.length))
        (if (vs.map g.value).length = expected then which.body later line' (vs.map g.value)
          else .fail line' (.argumentCount expected (vs.map g.value).length)) := by
    rw [List.length_map]
    by_cases enough : vs.length = expected
    · rw [if_pos enough, if_pos enough]
      exact body enough
    · rw [if_neg enough, if_neg enough]
      exact fail lines (.same fun _ => nofun)
  have one (body : ∀ v, g.Runs g.Same (which.body now line [v]) (which.body later line' [g.value v])) :=
    counted 1 fun enough => by
      obtain ⟨v, rfl⟩ := List.length_eq_one_iff.1 enough
      exact body v
  cases which with
  | print | log => exact printing now later line line' vs
  | clock =>
    refine counted 0 fun enough => ?_
    obtain rfl := List.length_eq_zero_iff.1 enough
    rw [clock rfl]
    exact pure rfl
  | push =>
    refine counted 2 fun enough => ?_
    obtain ⟨v, w, rfl⟩ := List.length_eq_two.1 enough
    exact push lines v w
  | len => exact one (length lines)
  | first => exact one (first lines)
  | last => exact one (last lines)
  | rest => exact one (rest lines)
  | type => exact one fun v => pure (by rw [kind_value]; rfl)
  | str => exact one str

theorem variableValue (contexts : g.Contexts c c') (lines : g.Lines line line') (name : g.name a b) :
    g.Runs g.Same (Evaluation.variableValue c line a) (Evaluation.variableValue c' line' b) := by
  have looked : g.Runs (fun v w => w = v.map g.value)
      (.reading (·.lookup c.scope a)) (.reading (·.lookup c'.scope b)) := by
    rw [contexts.scope]
    exact reading fun _ _ like => like.lookup name c.scope
  refine looked.bind fun v w same => ?_
  rw [same]
  cases v with
  | none => exact fail lines (.undefinedVariable name)
  | some v => exact pure rfl

theorem assignVariable (contexts : g.Contexts c c') (lines : g.Lines line line') (name : g.name a b) (v : Value) :
    g.Runs (fun _ _ => True) (Evaluation.assignVariable c line a v)
      (Evaluation.assignVariable c' line' b (g.value v)) := by
  have bound : g.Runs (fun i j => j = i.map g.scope)
      (.reading (·.binder? c.scope a)) (.reading (·.binder? c'.scope b)) := by
    rw [contexts.scope]
    exact reading fun _ _ like => like.binder? name c.scope
  refine bound.bind fun i j same => ?_
  rw [same]
  cases i with
  | none => exact fail lines (.undefinedVariable name)
  | some i => exact changing fun _ _ like => like.define name i v

theorem define (contexts : g.Contexts c c') (name : g.name a b) (v : Value) :
    g.Runs (fun _ _ => True) (.changing (·.define c.scope a v)) (.changing (·.define c'.scope b (g.value v))) := by
  rw [contexts.scope]
  exact changing fun _ _ like => like.define name c.scope v

theorem newScope {i j : ScopeId} (same : j = g.scope i) : g.Runs (fun i j => j = g.scope i)
    (.creating (·.newScope (some i))) (.creating (·.newScope (some j))) := by
  rw [same]
  exact creating fun _ _ like => like.newScope (some i)

theorem newArray (vs : List Value) : g.Runs (fun i j => j = g.array i) (.creating (·.newArray vs.toArray))
    (.creating (·.newArray (vs.map g.value).toArray)) := by
  refine creating fun _ _ like => ?_
  rw [← List.map_toArray]
  exact like.newArray vs.toArray

theorem newObject (vs : List (Text × Value)) : g.Runs (fun i j => j = g.object i)
    (.creating (·.newObject (.ofList vs))) (.creating (·.newObject (.ofList (vs.map fun e => (e.1, g.value e.2))))) :=
  creating fun _ _ like => like.newObject (Table.entries_ofList_map g.value vs)

theorem closure? (id : ClosureId) :
    g.Runs (Option.Rel g.Closures) (.reading (·.closures[id]?)) (.reading (·.closures[g.closure id]?)) :=
  reading fun _ _ like => like.closures.get id

theorem newClosure {f f' : FunctionLiteral} (contexts : g.Contexts c c') (like : g.Like (.function f) (.function f')) :
    g.Runs (fun i j => j = g.closure i) (.creating (·.newClosure f c.scope))
      (.creating (·.newClosure f' c'.scope)) := by
  rw [contexts.scope]
  exact creating fun _ _ stores => stores.newClosure like c.scope

theorem functionValue {f f' : FunctionLiteral} (contexts : g.Contexts c c') (own : f.name ≠ [] → g.name f.name f.name)
    (like : g.Like (.function f) (.function f')) :
    g.Runs g.Same (Evaluation.functionValue c f) (Evaluation.functionValue c' f') := by
  unfold Evaluation.functionValue
  rw [like.function_name]
  split
  · exact (newClosure contexts like).bind fun i j same => pure (by rw [same]; rfl)
  · next named =>
    refine (newScope contexts.scope).bind fun i j same => ?_
    rw [same]
    have inner := contexts.inScope i
    refine (newClosure inner like).bind fun k l same => ?_
    rw [same]
    exact (define inner (own named) (.closure k)).bind fun _ _ _ => pure rfl

theorem withoutValue : g.Runs g.Completions Evaluation.withoutValue Evaluation.withoutValue :=
  (keep rfl).bind fun _ _ _ => pure rfl

/-- Parameters are bound to the same arguments, in the same order. -/
theorem bindParameters {names names' : List Text} (like : List.Forall₂ g.name names names') (id : ScopeId)
    (vs : List Value) : g.Runs (fun _ _ => True) (.changing (Evaluation.bindParameters id names vs))
      (.changing (Evaluation.bindParameters (g.scope id) names' (vs.map g.value))) := by
  refine changing fun s s' stores => ?_
  unfold Evaluation.bindParameters
  induction like generalizing vs s s' with
  | nil => exact stores
  | cons name _ ih =>
    cases vs with
    | nil => exact stores
    | cons v vs => exact ih vs _ _ (stores.define name id v)

end Runs

end Guise

end TinyScript
