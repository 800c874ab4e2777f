import TinyScript.Proofs.Evaluation.Confinement
import TinyScript.Proofs.Evaluation.Contracts

namespace TinyScript

open Store hiding newArray newObject newClosure newScope append define

open Confined

variable {α β : Type} {region : Node → Prop} {s : Store} {st : State} {context : Context} {line : Nat}
  {name : Text} {v : Value}

/-- Binding names in a scope of the region stays in the region. -/
theorem foldl_define_edits {γ : Type} (name : γ → Text) (value : γ → Value) {scope : ScopeId}
    (inside : region (.scope scope)) (cs : List γ) (fits : ∀ c ∈ cs, s.Fits region (value c)) :
    Edits region s (cs.foldl (fun s c => s.define scope (name c) (value c)) s) := by
  induction cs generalizing s with
  | nil => exact .refl
  | cons c cs ih =>
    have first : Edit region s (s.define scope (name c) (value c)) := .define inside (fits c List.mem_cons_self)
    exact .head first (ih fun c mem => (fits c (List.mem_cons_of_mem _ mem)).mono first.has)

namespace Evaluation

theorem bindParameters_confined {scope : ScopeId} (inside : region (.scope scope)) (parameters : List Text)
    {arguments : List Value} (fits : ∀ v ∈ arguments, st.store.Fits region v) :
    Confined region st (fun _ _ => True) (.changing (bindParameters scope parameters arguments)) :=
  changing (foldl_define_edits Prod.fst Prod.snd inside (parameters.zip arguments)
    fun _ mem => fits _ (List.of_mem_zip mem).2) trivial

theorem variableValue_confined (within : st.store.Within region (.scope context.scope)) :
    Confined region st (Fits region) (variableValue context line name) := by
  refine (of_healthy fun healthy => reading (Q := fun s o => ∀ v, o = some v → s.Fits region v)
    fun v found => lookup_fits healthy within.1 found).bind fun o _ _ fits => ?_
  cases o with
  | none => exact fail
  | some v => exact pure (fits v rfl)

theorem assignVariable_confined (within : st.store.Within region (.scope context.scope))
    (fits : st.store.Fits region v) :
    Confined region st (fun s _ => s.Fits region v) (assignVariable context line name v) := by
  refine (of_healthy fun healthy => reading
    (Q := fun _ o => ∀ scope, o = some scope → region (.scope scope))
    fun scope found => binder?_inside healthy within.1 found).bind fun o _ edits inside => ?_
  have fits := fits.mono edits.has
  cases o with
  | none => exact fail
  | some scope => exact define (inside scope rfl) name fits fun _ edits => fits.mono edits.has

theorem functionValue_confined (within : st.store.Within region (.scope context.scope)) (literal : FunctionLiteral) :
    Confined region st (Fits region) (functionValue context literal) := by
  unfold functionValue
  split
  · exact (newClosure literal within).bind fun _ _ _ fits => pure fits
  · refine (newScope within).bind fun own _ _ ⟨_, within⟩ => ?_
    refine (newClosure literal within).bind fun closure _ _ fits => ?_
    exact (define (Q := fun s _ => s.Fits region (.closure closure)) within.1 literal.name fits
      fun s edits => fits.mono edits.has).bind fun _ _ _ fits => pure fits

end Evaluation

/-- A statement ends with a value that a program in the region can have. -/
def Completion.Fits (region : Node → Prop) (s : Store) : Completion → Prop
  | normal value => ∀ v, value = some v → s.Fits region v
  | returned value => s.Fits region value

namespace Task

/-- A task begins with values that a program in the region can have. -/
def Fits (region : Node → Prop) (s : Store) : Task → Prop
  | evalAll values _ => ∀ v ∈ values, s.Fits region v
  | evalPairs entries _ => ∀ e ∈ entries, s.Fits region e.2
  | apply _ callee arguments => s.Fits region callee ∧ ∀ v ∈ arguments, s.Fits region v
  | execAll last _ => ∀ v, last = some v → s.Fits region v
  | _ => True

/-- A task ends with values that a program in the region can have. -/
def Yields (region : Node → Prop) (t : Task) (s : Store) : t.Result → Prop :=
  match t with
  | eval _ | apply _ _ _ => s.Fits region
  | evalAll _ _ => fun values => ∀ v ∈ values, s.Fits region v
  | evalPairs _ _ => fun entries => ∀ e ∈ entries, s.Fits region e.2
  | exec _ | execAll _ _ | loop _ _ => Completion.Fits region s

end Task

theorem Outcome.Stays.edits {o : Outcome α} {P : Store → α → Prop} (stays : o.Stays region s P)
    (ended : o.state? = some st) : Edits region s st.store := by
  cases o with
  | done a st =>
    cases ended
    exact stays.2.1
  | failed error st =>
    cases ended
    exact stays.2
  | unfinished => cases ended

/-- A moment of a run in the region. -/
structure Moment.Contained (region : Node → Prop) (m : Moment) : Prop where
  ready : Ready region m.state
  scope : m.state.store.Within region (.scope m.context.scope)
  task : m.task.Fits region m.state.store

/-- Blocks and calls open a scope, which gets the next free place. -/
def Moment.opened (m : Moment) : ScopeId := m.state.store.scopes.size

/-- The scope in which the parts of a task are done. -/
def Moment.inner (m : Moment) : ScopeId :=
  match m.task with
  | .exec (.block _ _) | .apply _ _ _ => m.opened
  | _ => m.context.scope

/-- To stay in a region, and to edit the store only. -/
def containment (region : Node → Prop) : Contract where
  requires := Moment.Contained region
  parts m w := w.context.scope = m.inner
  follows st st' := Edits region st.store st'.store
  ensures m outcome := outcome.Stays region m.state.store (m.task.Yields region)
  refl _ := .refl
  trans := .trans
  ends stays ended := stays.edits ended

/-- From a state that is ready a script stays in the region when the tasks in it do. These are done in some scope. -/
def Script.Contained (region : Node → Prop) (inner : ScopeId) (st : State) (P : Store → α → Prop) (x : Script α) :
    Prop :=
  Ready region st →
    (x st).Meets (containment region) (fun w => w.context.scope = inner) (Outcome.Stays region st.store P) st

namespace Script.Contained

variable {inner : ScopeId} {P : Store → α → Prop} {Q : Store → β → Prop} {x : Script α} {f : α → Script β} {t : Task}

theorem bind (first : Contained region inner st P x)
    (later : ∀ a st', Edits region st.store st'.store → P st'.store a → Contained region inner st' Q (f a)) :
    Contained region inner st Q (x >>= f) := by
  intro ready
  refine (first ready).bind (fun a st' stays => ?_) (fun _ _ stays => stays) fun _ => trivial
  obtain ⟨ready', edits, holds⟩ := stays
  exact (later a st' edits holds ready').mono fun _ stays => stays.trans edits

theorem own {x : Run α} (confined : Confined region st P x) : Contained region inner st P (Script.own x) :=
  fun ready => ⟨confined ready, fun _ ended => (confined ready).edits ended⟩

theorem pure {a : α} (holds : P st.store a) : Contained region inner st P (Pure.pure a : Script α) :=
  own (Confined.pure holds)

theorem ask (within : st.store.Within region (.scope context.scope)) (fits : t.Fits region st.store) :
    Contained region context.scope st (t.Yields region) (Script.ask context t) :=
  fun ready => ⟨⟨⟨ready, within, fits⟩, rfl, .refl⟩, fun outcome stays => by
    cases outcome with
    | done a last => exact ⟨stays, fun _ ended => by cases ended; exact .refl⟩
    | failed error last => exact stays
    | unfinished => trivial⟩

theorem keeping {x : Script Value} (contained : Contained region inner st (Fits region) x) :
    Contained region inner st (Fits region) (Script.keeping x) :=
  contained.bind fun _ _ _ fits =>
    (own (keep (Q := fun s _ => s.Fits region _) fits fits)).bind fun _ _ _ fits => pure fits

theorem withoutValue : Contained region inner st (Completion.Fits region) (Script.own Evaluation.withoutValue) :=
  own ((keep (Q := fun _ _ => True) (.of_node?_eq_none rfl) trivial).bind fun _ _ _ _ =>
    Confined.pure fun _ none => by cases none)

theorem value {v : Value} (none : v.node? = none) :
    Contained region inner st (Fits region) (Pure.pure v : Script Value) :=
  pure (.of_node?_eq_none none)

end Script.Contained

namespace Evaluation

/-- The values of a table come from the pairs that it was made of. -/
theorem fits_ofList {entries : List (Text × Value)} (fits : ∀ e ∈ entries, s.Fits region e.2) :
    ∀ v ∈ (Table.ofList entries).values, s.Fits region v := by
  suffices ∀ t : Table Value, (∀ v ∈ t.values, s.Fits region v) →
      ∀ v ∈ (entries.foldl (fun t pair => t.insert pair.1 pair.2) t).values, s.Fits region v from
    this .empty fun v mem => by cases mem
  intro t already
  induction entries generalizing t with
  | nil => exact already
  | cons e entries ih =>
    refine ih (fun e mem => fits e (List.mem_cons_of_mem _ mem)) (t.insert e.1 e.2) fun v mem => ?_
    rcases Table.mem_values_insert mem with rfl | mem
    · exact fits e List.mem_cons_self
    · exact already v mem

/-- The scope in which a closure was made is in the region of the closure. -/
theorem closure_within (healthy : s.Healthy region) {id : ClosureId} (inside : region (.closure id)) {c : Closure}
    (found : s.closures[id]? = some c) : s.Within region (.scope c.scope) := by
  have edge : Node.scope c.scope ∈ s.edges (.closure id) := by simp [edges, found]
  exact ⟨healthy.closed _ _ inside edge, healthy.has _ _ edge⟩

end Evaluation

namespace Script.Contained

theorem eval (within : st.store.Within region (.scope context.scope)) (e : Expr) :
    Contained region context.scope st (Fits region) (Script.eval context e) := by
  have within : st.store.Within region (.scope context.inside.scope) := within
  unfold Script.eval
  refine keeping ?_
  cases e with
  | identifier location name => exact own (Evaluation.variableValue_confined within)
  | number location value => exact Contained.value rfl
  | string location value => exact Contained.value rfl
  | boolean location value => exact Contained.value rfl
  | null location => exact Contained.value rfl
  | array location elements =>
    refine (ask (t := .evalAll [] elements) within (by simp [Task.Fits])).bind fun values _ _ fits => ?_
    exact (own (newArray fun v mem => fits v (by simpa using mem))).bind fun _ _ _ fits => pure fits
  | object location pairs =>
    refine (ask (t := .evalPairs [] pairs) within (by simp [Task.Fits])).bind fun entries _ _ fits => ?_
    exact (own (newObject (Evaluation.fits_ofList fits))).bind fun _ _ _ fits => pure fits
  | function literal => exact own (Evaluation.functionValue_confined within literal)
  | assign location name value =>
    refine (ask (t := .eval value) within trivial).bind fun v _ edits fits => ?_
    exact (own (Evaluation.assignVariable_confined (within.mono edits.has) fits)).bind fun _ _ _ fits => pure fits
  | unary location op operand =>
    exact (ask (t := .eval operand) within trivial).bind fun v _ _ _ => own (op.apply_confined _ v)
  | binary location op left right =>
    refine (ask (t := .eval left) within trivial).bind fun v _ edits _ => ?_
    exact (ask (t := .eval right) (within.mono edits.has) trivial).bind fun w _ _ _ => own (op.apply_confined _ v w)
  | logical location op left right =>
    refine (ask (t := .eval left) within trivial).bind fun v _ edits fits => ?_
    split
    · exact pure fits
    · exact ask (t := .eval right) (within.mono edits.has) trivial
  | call location callee arguments =>
    refine (ask (t := .eval callee) within trivial).bind fun f _ edits callable => ?_
    have within := within.mono edits.has
    refine (ask (t := .evalAll [] arguments) within (by simp [Task.Fits])).bind fun values _ edits fits => ?_
    exact ask (t := .apply _ f values) (within.mono edits.has) ⟨callable.mono edits.has, fits⟩
  | index location left index =>
    refine (ask (t := .eval left) within trivial).bind fun v _ edits fits => ?_
    refine (ask (t := .eval index) (within.mono edits.has) trivial).bind fun w _ edits _ => ?_
    exact own (Value.at_confined (fits.mono edits.has) w)

theorem evalAll (within : st.store.Within region (.scope context.scope)) {values : List Value}
    (fits : ∀ v ∈ values, st.store.Fits region v) (es : List Expr) :
    Contained region context.scope st (fun s vs => ∀ v ∈ vs, s.Fits region v) (Script.evalAll context values es) := by
  cases es with
  | nil => exact pure fun v mem => fits v (List.mem_reverse.1 mem)
  | cons e more =>
    refine (ask (t := .eval e) within trivial).bind fun v _ edits fit => ?_
    refine ask (t := .evalAll (v :: values) more) (within.mono edits.has) fun w mem => ?_
    rcases List.mem_cons.1 mem with rfl | mem
    · exact fit
    · exact (fits w mem).mono edits.has

theorem evalPairs (within : st.store.Within region (.scope context.scope))
    {entries : List (Text × Value)} (fits : ∀ e ∈ entries, st.store.Fits region e.2) (pairs : List (Text × Expr)) :
    Contained region context.scope st (fun s es => ∀ e ∈ es, s.Fits region e.2)
      (Script.evalPairs context entries pairs) := by
  match pairs with
  | [] => exact pure fun e mem => fits e (List.mem_reverse.1 mem)
  | (key, e) :: more =>
    refine (ask (t := .eval e) within trivial).bind fun v _ edits fit => ?_
    refine ask (t := .evalPairs ((key, v) :: entries) more) (within.mono edits.has) fun entry mem => ?_
    rcases List.mem_cons.1 mem with rfl | mem
    · exact fit
    · exact (fits entry mem).mono edits.has

theorem apply (line : Nat) {callee : Value} {arguments : List Value}
    (callable : st.store.Fits region callee) (fits : ∀ v ∈ arguments, st.store.Fits region v) :
    Contained region st.store.scopes.size st (Fits region) (Script.apply context line callee arguments) := by
  unfold Script.apply
  split
  · next which => exact own (which.apply_confined context.time line fits)
  · next id =>
    refine (own (of_healthy fun healthy => reading
      (Q := fun s o => s.scopes.size = st.store.scopes.size ∧
        ∀ c : Closure, o = some c → s.Within region (.scope c.scope))
      ⟨rfl, fun c found => Evaluation.closure_within healthy (callable _ rfl).1 found⟩)).bind
        fun o _ edits ⟨size, within⟩ => ?_
    cases o with
    | none => exact own fail
    | some c =>
      dsimp only
      split
      · exact own fail
      · split
        · exact own fail
        · refine (own (newScope (within c rfl))).bind fun locals _ edits' ⟨next, new⟩ => ?_
          obtain rfl := next.trans size
          refine (own (Evaluation.bindParameters_confined new.1 _ fun v mem =>
            (fits v mem).mono (Edits.has (edits.trans edits')))).bind fun _ _ edits _ => ?_
          refine (ask (t := .execAll none c.literal.body) (new.mono edits.has)
            (by simp [Task.Fits])).bind fun ending _ _ fits => ?_
          cases ending with
          | returned v => exact pure fits
          | normal _ => exact Contained.value rfl
  · exact own fail

theorem exec (within : st.store.Within region (.scope context.scope)) (stmt : Stmt) :
    Contained region (Moment.inner ⟨context, .exec stmt, st⟩) st (Completion.Fits region)
      (Script.exec context stmt) := by
  have within : st.store.Within region (.scope context.inside.scope) := within
  unfold Script.exec
  cases stmt with
  | var location name value =>
    cases value with
    | none =>
      exact (own (define (Q := fun _ _ => True) within.1 name (.of_node?_eq_none rfl) fun _ _ => trivial)).bind
        fun _ _ _ _ => withoutValue
    | some e =>
      refine (ask (t := .eval e) within trivial).bind fun v _ _ fits => ?_
      exact (own (define (Q := fun _ _ => True) within.1 name fits fun _ _ => trivial)).bind
        fun _ _ _ _ => withoutValue
  | function literal =>
    refine (own (newClosure literal within)).bind fun closure _ _ fits => ?_
    exact (own (define (Q := fun _ _ => True) within.1 literal.name fits fun _ _ => trivial)).bind
      fun _ _ _ _ => withoutValue
  | expression location e =>
    refine (ask (t := .eval e) within trivial).bind fun v _ _ fits => pure fun w same => ?_
    exact Option.some.inj same ▸ fits
  | returns location value =>
    cases value with
    | none =>
      exact (own (keep (Q := fun _ _ => True) (.of_node?_eq_none rfl) trivial)).bind
        fun _ _ _ _ => pure (Store.Fits.of_node?_eq_none rfl)
    | some e => exact (ask (t := .eval e) within trivial).bind fun v _ _ fits => pure fits
  | block location body =>
    refine (own (newScope within)).bind fun inner _ _ ⟨next, within⟩ => ?_
    obtain rfl := next
    refine (ask (t := .execAll none body) within (by simp [Task.Fits])).bind fun ending _ _ fits => ?_
    cases ending with
    | returned v => exact pure fits
    | normal _ => exact pure fun _ none => by cases none
  | ifElse location condition consequence alternative =>
    refine (ask (t := .eval condition) within trivial).bind fun v _ edits _ => ?_
    generalize (if v.truthy then some consequence else alternative) = chosen
    cases chosen with
    | none => exact withoutValue
    | some chosen =>
      refine (ask (t := .exec chosen) (within.mono edits.has) trivial).bind fun ending _ _ fits => ?_
      cases ending with
      | returned v => exact pure fits
      | normal _ => exact withoutValue
  | whileLoop location condition body => exact ask (t := .loop condition body) within trivial

theorem execAll (within : st.store.Within region (.scope context.scope)) {last : Option Value}
    (fits : ∀ v, last = some v → st.store.Fits region v) (stmts : List Stmt) :
    Contained region context.scope st (Completion.Fits region) (Script.execAll context last stmts) := by
  cases stmts with
  | nil => exact pure fits
  | cons stmt more =>
    refine (ask (t := .exec stmt) within trivial).bind fun ending _ edits fits => ?_
    cases ending with
    | returned v => exact pure fits
    | normal value => exact ask (t := .execAll value more) (within.mono edits.has) fits

theorem loop (within : st.store.Within region (.scope context.scope)) (condition : Expr) (body : Stmt) :
    Contained region context.scope st (Completion.Fits region) (Script.loop context condition body) := by
  unfold Script.loop
  refine (ask (t := .eval condition) within trivial).bind fun v _ edits _ => ?_
  have within := within.mono edits.has
  split
  · refine (ask (t := .exec body) within trivial).bind fun ending _ edits fits => ?_
    cases ending with
    | returned v => exact pure fits
    | normal _ => exact ask (t := .loop condition body) (within.mono edits.has) trivial
  · exact withoutValue

end Script.Contained

/-- Every level of work stays in the region when the tasks in it do. -/
theorem containment_holds (region : Node → Prop) : (containment region).Holds where
  unfinished _ := trivial
  scripts m contained := by
    obtain ⟨context, task, st⟩ := m
    obtain ⟨ready, within, fits⟩ := contained
    cases task with
    | eval e => exact Script.Contained.eval within e ready
    | evalAll values es => exact Script.Contained.evalAll within fits es ready
    | evalPairs entries pairs => exact Script.Contained.evalPairs within fits pairs ready
    | apply line callee arguments => exact Script.Contained.apply line fits.1 fits.2 ready
    | exec stmt => exact Script.Contained.exec within stmt ready
    | execAll last stmts => exact Script.Contained.execAll within fits stmts ready
    | loop condition body => exact Script.Contained.loop within condition body ready

namespace Moment.Contained

variable {m root : Moment} {k : Nat}

/-- A run stays in the region. -/
theorem run (contained : m.Contained region) (n : Nat) :
    (m.run n).Stays region m.state.store (m.task.Yields region) :=
  (containment_holds region).run contained n

/-- At every moment of a run all that is at hand is in the region, and the store has only been edited. -/
theorem within (contained : root.Contained region) (within : TinyScript.Within root k m) :
    m.Contained region ∧ Edits region root.state.store m.state.store :=
  (containment_holds region).within contained within

end Moment.Contained

end TinyScript
