import TinyScript.Proofs.Evaluation.Restored
import TinyScript.Proofs.Evaluation.Scopes

namespace TinyScript

open Evaluation

variable {α β : Type} {n k : Nat} {c c' : Context} {st st' st'' : State} {v : Value} {s : Stmt}

/-- A statement in which one place is left open. -/
inductive Surrounding where
  | hole
  | block (location : Location) (before : List Stmt) (inner : Surrounding) (after : List Stmt)
  | thenBranch (location : Location) (condition : Expr) (inner : Surrounding) (alternative : Option Stmt)
  | elseBranch (location : Location) (condition : Expr) (consequence : Stmt) (inner : Surrounding)
  | whileBody (location : Location) (condition : Expr) (inner : Surrounding)

namespace Surrounding

/-- Puts a statement in the open place. -/
def fill (s : Stmt) : Surrounding → Stmt
  | hole => s
  | block location before inner after => .block location (before ++ inner.fill s :: after)
  | thenBranch location condition inner alternative => .ifElse location condition (inner.fill s) alternative
  | elseBranch location condition consequence inner => .ifElse location condition consequence (some (inner.fill s))
  | whileBody location condition inner => .whileLoop location condition (inner.fill s)

/-- The open place is in the block that is the body of a written-out loop. -/
def forBody (location : Location) (initializer : Option Stmt) (condition increment : Option Expr)
    (bodyLocation : Location) (before : List Stmt) (inner : Surrounding) (after : List Stmt) : Surrounding :=
  let body := block bodyLocation before inner after
  let round := match increment with
    | some step => block bodyLocation [] body [.expression step.location step]
    | none => body
  let loop := whileBody location (condition.getD (.boolean location true)) round
  match initializer with
  | some first => block location [first] loop []
  | none => loop

theorem fill_forBody (s : Stmt) (location : Location) (initializer : Option Stmt) (condition increment : Option Expr)
    (bodyLocation : Location) (before : List Stmt) (inner : Surrounding) (after : List Stmt) :
    (forBody location initializer condition increment bodyLocation before inner after).fill s =
      .forLoop location initializer condition increment (.block bodyLocation (before ++ inner.fill s :: after)) := by
  cases initializer <;> cases increment <;> rfl

end Surrounding

/-- Where the statements of a block run, when the block is executed in this state. -/
def Context.block (c : Context) (st : State) : Context := { c.inside with scope := st.store.scopes.size }

/-- The state in which a new scope has been opened. -/
def State.opened (st : State) (outer : ScopeId) : State := { st with store := (st.store.newScope (some outer)).2 }

/-- Rounds of a loop that have ended without a return. -/
inductive Rounds (c : Context) (condition : Expr) (body : Stmt) : State → State → Prop
  | none {st : State} : Rounds c condition body st st
  | next {n k : Nat} {st checked done st' : State} {u : Value} {value : Option Value} :
    eval n c condition st = .done u checked → u.truthy → exec k c body checked = .done (.normal value) done →
    Rounds c condition body done st' → Rounds c condition body st st'

/-- When the surrounding statement is executed with a statement in its open place, it comes to this statement, perhaps
after rounds of the loops around it. -/
inductive Surrounding.Reaches (s : Stmt) : Surrounding → Context → State → Context → State → Prop
  | hole {c : Context} {st : State} : Reaches s .hole c st c st
  | block {c c' : Context} {st between st' : State} {location : Location} {before after : List Stmt} {n : Nat}
    {last : Option Value} {inner : Surrounding} :
    execAll n (c.block st) none before (st.opened c.scope) = .done (.normal last) between →
    Reaches s inner (c.block st) between c' st' → Reaches s (.block location before inner after) c st c' st'
  | thenBranch {c c' : Context} {st between st' : State} {location : Location} {condition : Expr} {n : Nat} {u : Value}
    {inner : Surrounding} {alternative : Option Stmt} :
    eval n c.inside condition st = .done u between → u.truthy → Reaches s inner c.inside between c' st' →
    Reaches s (.thenBranch location condition inner alternative) c st c' st'
  | elseBranch {c c' : Context} {st between st' : State} {location : Location} {condition : Expr} {n : Nat} {u : Value}
    {inner : Surrounding} {consequence : Stmt} :
    eval n c.inside condition st = .done u between → ¬ u.truthy → Reaches s inner c.inside between c' st' →
    Reaches s (.elseBranch location condition consequence inner) c st c' st'
  | whileBody {c c' : Context} {st between entered st' : State} {location : Location} {condition : Expr} {n : Nat}
    {u : Value} {inner : Surrounding} :
    Rounds c.inside condition (inner.fill s) st between → eval n c.inside condition between = .done u entered →
    u.truthy → Reaches s inner c.inside entered c' st' → Reaches s (.whileBody location condition inner) c st c' st'

/-- An open place in a list of statements, such as the body of a function or a program. -/
structure Place where
  before : List Stmt
  inner : Surrounding
  after : List Stmt

namespace Place

def fill (s : Stmt) (place : Place) : List Stmt := place.before ++ place.inner.fill s :: place.after

/-- When the statements are executed in order they come to the statement in the open place. -/
def Reaches (s : Stmt) (place : Place) (c : Context) (st : State) (c' : Context) (st' : State) : Prop :=
  ∃ n last between, execAll n c none place.before st = .done (.normal last) between ∧
    place.inner.Reaches s c between c' st'

end Place

/-- With enough steps the work ends in this way, and nothing is begun behind the part. -/
def Step.EndsWith (step : Step α) (o : Outcome α) (p : Moment) : Prop :=
  ∃ n, ∀ k, n ≤ k → step.run k = o ∧ p.moments k <:+ step.moments k (Moment.moments k)

/-- With enough steps the task ends in this way, and nothing is begun behind the other task. -/
def Moment.EndsWith (m : Moment) (o : Outcome m.task.Result) (p : Moment) : Prop :=
  ∃ n, ∀ k, n ≤ k → m.run k = o ∧ p.moments k <:+ m.moments k

namespace Step.EndsWith

variable {p q : Moment} {o : Outcome α}

theorem here {a : p.task.Result} {next : p.task.Result → State → Step α} (done : p.run n = .done a st)
    (ends : next a st = .ended o) : EndsWith (.part p next) o p := by
  refine ⟨n, fun k le => ?_⟩
  have again : p.run k = .done a st := by rw [p.run_mono le (by simp [done]), done]
  rw [Step.run, Step.moments, again]
  dsimp only
  rw [ends]
  exact ⟨rfl, List.append_nil _ ▸ List.suffix_rfl⟩

theorem behind {a : q.task.Result} {next : q.task.Result → State → Step α} (done : q.run n = .done a st)
    (ends : EndsWith (next a st) o p) : EndsWith (.part q next) o p := by
  obtain ⟨enough, all⟩ := ends
  refine ⟨max n enough, fun k le => ?_⟩
  have again : q.run k = .done a st := by
    rw [q.run_mono (Nat.le_trans (Nat.le_max_left n enough) le) (by simp [done]), done]
  obtain ⟨run, last⟩ := all k (Nat.le_trans (Nat.le_max_right n enough) le)
  rw [Step.run, Step.moments, again]
  exact ⟨run, List.suffix_append_of_suffix last⟩

/-- Behind a task the script goes on. -/
theorem asked {t : Task} {a : t.Result} {next : t.Result → Script α} (done : t.run n c st = .done a st')
    (ends : (next a st').EndsWith o p) : EndsWith ((Script.ask c t >>= next) st) o p :=
  behind (q := ⟨c, t, st⟩) done ends

end Step.EndsWith

namespace Moment.EndsWith

variable {m p q : Moment} {o : Outcome m.task.Result}

theorem refl (done : m.run n = o) (ends : o ≠ .unfinished) : m.EndsWith o m := by
  refine ⟨n, fun k le => ⟨?_, List.suffix_rfl⟩⟩
  rw [m.run_mono le (fun unfinished => ends (done ▸ unfinished)), done]

/-- A part with which the work of a task ends, and what that part itself ends with. -/
theorem of_script {a : q.task.Result} (ends : q.EndsWith (.done a st) p)
    (script : ∀ n, q.run n = .done a st → m.script.EndsWith o q) : m.EndsWith o p := by
  obtain ⟨n, part⟩ := ends
  obtain ⟨enough, work⟩ := script n (part n (Nat.le_refl n)).1
  refine ⟨max n enough + 1, fun k le => ?_⟩
  obtain ⟨k, rfl⟩ := Nat.exists_eq_add_of_le' (Nat.le_trans (Nat.succ_le_succ (Nat.zero_le _)) le)
  have le := Nat.le_of_succ_le_succ le
  have le_part := Nat.le_trans (Nat.le_max_left n enough) le
  obtain ⟨run, last⟩ := work k (Nat.le_trans (Nat.le_max_right n enough) le)
  have same : q.moments (k + 1) = q.moments k := q.moments_eq (Nat.le_succ k) (by simp [(part k le_part).1])
  rw [m.run_succ]
  refine ⟨run, (part (k + 1) (Nat.le_succ_of_le le_part)).2.trans ?_⟩
  rw [same, moments]
  exact last.trans (List.suffix_cons _ _)

end Moment.EndsWith

/-- Executing statements, without leaving a call or entering another one, comes from one task to another. -/
inductive Moment.Leads : Moment → Moment → Prop
  | block {c : Context} {location : Location} {body : List Stmt} {st : State} :
    Leads ⟨c, .exec (.block location body), st⟩ ⟨c.block st, .execAll none body, st.opened c.scope⟩
  | first {c : Context} {last : Option Value} {s : Stmt} {more : List Stmt} {st : State} :
    Leads ⟨c, .execAll last (s :: more), st⟩ ⟨c, .exec s, st⟩
  | rest {c : Context} {last value : Option Value} {s : Stmt} {more : List Stmt} {st st' : State} {n : Nat} :
    exec n c s st = .done (.normal value) st' →
    Leads ⟨c, .execAll last (s :: more), st⟩ ⟨c, .execAll value more, st'⟩
  | branch {c : Context} {location : Location} {condition : Expr} {consequence chosen : Stmt}
    {alternative : Option Stmt} {st between : State} {n : Nat} {u : Value} :
    eval n c.inside condition st = .done u between →
    (if u.truthy then some consequence else alternative) = some chosen →
    Leads ⟨c, .exec (.ifElse location condition consequence alternative), st⟩ ⟨c.inside, .exec chosen, between⟩
  | loop {c : Context} {location : Location} {condition : Expr} {body : Stmt} {st : State} :
    Leads ⟨c, .exec (.whileLoop location condition body), st⟩ ⟨c.inside, .loop condition body, st⟩
  | body {c : Context} {condition : Expr} {body : Stmt} {st checked : State} {n : Nat} {u : Value} :
    eval n c condition st = .done u checked → u.truthy → Leads ⟨c, .loop condition body, st⟩ ⟨c, .exec body, checked⟩
  | round {c : Context} {condition : Expr} {body : Stmt} {st checked done : State} {n k : Nat} {u : Value}
    {value : Option Value} :
    eval n c condition st = .done u checked → u.truthy → exec k c body checked = .done (.normal value) done →
    Leads ⟨c, .loop condition body, st⟩ ⟨c, .loop condition body, done⟩

/-- The result of statements that return. -/
def Task.returned (v : Value) : (t : Task) → Option t.Result
  | exec _ | execAll _ _ | loop _ _ => some (.returned v)
  | _ => none

/-- The statements end by a return, and nothing is begun behind the part. -/
def Moment.Unwinds (m : Moment) (v : Value) (st : State) (p : Moment) : Prop :=
  ∃ result, m.task.returned v = some result ∧ m.EndsWith (.done result st) p

/-- A return that ends a part ends the statements around it. -/
theorem Moment.Leads.unwinds {m q p : Moment} (leads : Leads m q) (unwinds : q.Unwinds v st p) :
    m.Unwinds v st p := by
  obtain ⟨result, same, ends⟩ := unwinds
  cases leads with
  | block =>
    cases same
    exact ⟨_, rfl, ends.of_script fun n returns => .here returns rfl⟩
  | first =>
    cases same
    exact ⟨_, rfl, ends.of_script fun n returns => .here returns rfl⟩
  | rest executed =>
    cases same
    exact ⟨_, rfl, ends.of_script fun n returns => .behind executed (.here returns rfl)⟩
  | branch evaluated choice =>
    cases same
    refine ⟨_, rfl, ends.of_script fun n returns => .asked evaluated ?_⟩
    rw [choice]
    exact .here returns rfl
  | loop =>
    cases same
    exact ⟨_, rfl, ends.of_script fun n returns => .here returns rfl⟩
  | body evaluated truthy =>
    cases same
    refine ⟨_, rfl, ends.of_script fun n returns => .asked evaluated ?_⟩
    rw [if_pos truthy]
    exact .here returns rfl
  | round evaluated truthy executed =>
    cases same
    refine ⟨_, rfl, ends.of_script fun n returns => .asked evaluated ?_⟩
    rw [if_pos truthy]
    exact .asked executed (.here returns rfl)

/-- A return that ends a statement ends all statements that have led to it. -/
theorem Moment.Unwinds.of_leads {m q p : Moment} (leads : Relation.ReflTransGen Moment.Leads m q)
    (unwinds : q.Unwinds v st p) : m.Unwinds v st p := by
  induction leads using Relation.ReflTransGen.head_induction_on with
  | refl => exact unwinds
  | head first _ ih => exact first.unwinds ih

/-- Statements that end without a return lead to those behind them. -/
theorem execAll_leads {before after : List Stmt} {last value : Option Value}
    (executed : execAll n c last before st = .done (.normal value) st') :
    Relation.ReflTransGen Moment.Leads ⟨c, .execAll last (before ++ after), st⟩ ⟨c, .execAll value after, st'⟩ := by
  induction before generalizing n last st with
  | nil =>
    cases n with
    | zero => cases executed
    | succ n =>
      cases executed
      exact .refl
  | cons s before ih =>
    cases n with
    | zero => cases executed
    | succ n =>
      obtain ⟨completion, between, first, executed⟩ := Run.of_bind_done executed
      cases completion with
      | returned => cases executed
      | normal value => exact .head (.rest first) (ih executed)

theorem Rounds.leads {condition : Expr} {body : Stmt} (rounds : Rounds c condition body st st') :
    Relation.ReflTransGen Moment.Leads ⟨c, .loop condition body, st⟩ ⟨c, .loop condition body, st'⟩ := by
  induction rounds with
  | none => exact .refl
  | next evaluated truthy executed _ ih => exact .head (.round evaluated truthy executed) ih

/-- A surrounding statement leads to the statement in its open place. -/
theorem Surrounding.Reaches.leads {inner : Surrounding} (reaches : inner.Reaches s c st c' st') :
    Relation.ReflTransGen Moment.Leads ⟨c, .exec (inner.fill s), st⟩ ⟨c', .exec s, st'⟩ := by
  induction reaches with
  | hole => exact .refl
  | block executed _ ih => exact .head .block ((execAll_leads executed).trans (.head .first ih))
  | thenBranch evaluated truthy _ ih => exact .head (.branch evaluated (if_pos truthy)) ih
  | elseBranch evaluated falsy _ ih => exact .head (.branch evaluated (if_neg falsy)) ih
  | whileBody rounds evaluated truthy _ ih => exact .head .loop (rounds.leads.trans (.head (.body evaluated truthy) ih))

theorem Place.Reaches.leads {place : Place} (reaches : place.Reaches s c st c' st') :
    Relation.ReflTransGen Moment.Leads ⟨c, .execAll none (place.fill s), st⟩ ⟨c', .exec s, st'⟩ := by
  obtain ⟨n, last, between, executed, reaches⟩ := reaches
  exact (execAll_leads executed).trans (.head .first reaches.leads)

/-- A return statement returns the value of its expression, or else null. -/
theorem exec_return_value {location : Location} {value : Option Expr}
    (returns : exec n c (.returns location value) st = .done (.returned v) st') :
    (value = none → v = .null) ∧ ∀ e, value = some e → ∃ k, eval k c.inside e st = .done v st' := by
  cases n with
  | zero => cases returns
  | succ n =>
    constructor
    · rintro rfl
      cases returns
      rfl
    · rintro e rfl
      obtain ⟨u, between, evaluated, returns⟩ := Run.of_bind_done returns
      cases returns
      exact ⟨n, evaluated⟩

/-- When a return waits, what is returned is the latest value. -/
theorem exec_waits (returns : exec n c s st = .done (.returned v) st') : st'.latest = v ∧
    Visit.stmt n ⟨c.limit, c.room, c.time⟩ s ⟨c.scope, c.depth, false, st⟩ =
      .done () ⟨c.scope, c.depth, true, st'⟩ := by
  have still : (⟨c.scope, c.depth, false, st⟩ : Registers).returning = false := rfl
  have follows := Visit.stmt_follows n ⟨c.limit, c.room, c.time⟩ s still
  have same : exec n ((⟨c.limit, c.room, c.time⟩ : Host).context c.scope c.depth) s st = .done (.returned v) st' :=
    returns
  dsimp only at follows
  rw [same] at follows
  generalize Visit.stmt n _ s _ = exit at follows ⊢
  cases follows with
  | done ended =>
    obtain ⟨latest, rfl⟩ := ended
    exact ⟨latest, rfl⟩

/-- What is left in the registers behind an expression. No return waits. -/
theorem eval_waits {e : Expr} (evaluated : eval n c e st = .done v st') :
    Visit.expr n ⟨c.limit, c.room, c.time⟩ e ⟨c.scope, c.depth, false, st⟩ =
      .done () ⟨c.scope, c.depth, false, st'⟩ := by
  have still : (⟨c.scope, c.depth, false, st⟩ : Registers).returning = false := rfl
  have follows := Visit.expr_follows n ⟨c.limit, c.room, c.time⟩ e still
  have same : eval n ((⟨c.limit, c.room, c.time⟩ : Host).context c.scope c.depth) e st = .done v st' := evaluated
  dsimp only at follows
  rw [same] at follows
  generalize Visit.expr n _ e _ = exit at follows ⊢
  cases follows with
  | done valued =>
    obtain ⟨_, rfl⟩ := valued
    rfl

/-- Evaluating a call comes to the body of a closure. -/
inductive Calls (c : Context) (st : State) : Expr → List Stmt → Context → State → Prop
  | intro {called ready : State} {n k : Nat} {location : Location} {callee : Expr} {arguments : List Expr}
    {id : ClosureId} {values : List Value} {closure : Closure} :
    eval n c.inside callee st = .done (.closure id) called →
    evalAll k c.inside [] arguments called = .done values ready → ready.store.closures[id]? = some closure →
    values.length = closure.literal.parameters.length → c.inside.isFull = false →
    Calls c st (.call location callee arguments) closure.literal.body (c.inside.called ready.store.scopes.size)
      { ready with
        store := bindParameters ready.store.scopes.size closure.literal.parameters values
          (ready.store.newScope (some closure.scope)).2 }

/-- The value of a call whose body has ended like this. -/
def Completion.called : Completion → Value
  | returned v => v
  | normal _ => .null

theorem Calls.ends {e : Expr} {body : List Stmt} {inside : Context} {entered : State}
    (calls : Calls c st e body inside entered) {completion : Completion} {p : Moment}
    (ends : Moment.EndsWith ⟨inside, .execAll none body, entered⟩ (.done completion st') p) :
    Moment.EndsWith ⟨c, .eval e, st⟩ (.done completion.called { st' with latest := completion.called }) p := by
  cases calls with
  | @intro called ready n k location callee arguments id values closure evaluated evaluatedAll found count free =>
    have script : (⟨c.inside, .apply location.line (.closure id) values, ready⟩ : Moment).script =
        Script.enter c.inside closure values ready := by
      refine (Script.apply_closure c.inside location.line id values ready).trans ?_
      rw [found]
      dsimp only
      rw [if_neg (fun other => other count), free]
      rfl
    have applied : Moment.EndsWith ⟨c.inside, .apply location.line (.closure id) values, ready⟩
        (.done completion.called st') p := by
      refine ends.of_script fun n executed => ?_
      rw [script]
      exact .here executed (by cases completion <;> rfl)
    exact applied.of_script fun n done => .behind evaluated (.behind evaluatedAll (.here done rfl))

/-- What a return ends, once a statement has been come to that returns the value. In all cases nothing is begun behind
this statement, and what it left is left. -/
structure Unwound (s : Stmt) (c : Context) (st : State) (v : Value) (st' : State) : Prop where
  /-- All statements around it in the same call return the value. -/
  surrounding : ∀ (around : Surrounding) (outer : Context) (before : State), around.Reaches s outer before c st →
    Moment.EndsWith ⟨outer, .exec (around.fill s), before⟩ (.done (.returned v) st') ⟨c, .exec s, st⟩
  /-- So do the loops that are written with an initializer and an increment. -/
  forLoop : ∀ (location : Location) (initializer : Option Stmt) (condition increment : Option Expr)
    (bodyLocation : Location) (first : List Stmt) (inner : Surrounding) (rest : List Stmt) (outer : Context)
    (before : State),
    (Surrounding.forBody location initializer condition increment bodyLocation first inner rest).Reaches s outer before
      c st →
    Moment.EndsWith ⟨outer, .exec (.forLoop location initializer condition increment
      (.block bodyLocation (first ++ inner.fill s :: rest))), before⟩ (.done (.returned v) st') ⟨c, .exec s, st⟩
  /-- With registers the return waits behind all of them, and the value is the latest one. -/
  waits : st'.latest = v ∧
    ∀ (around : Surrounding) (outer : Context) (before : State), around.Reaches s outer before c st →
      ∃ n, ∀ k, n ≤ k → Visit.stmt k ⟨outer.limit, outer.room, outer.time⟩ (around.fill s)
        ⟨outer.scope, outer.depth, false, before⟩ = .done () ⟨outer.scope, outer.depth, true, st'⟩
  /-- The call has the value. -/
  call : ∀ (place : Place) (caller : Context) (e : Expr) (before : State) (inside : Context) (entered : State),
    Calls caller before e (place.fill s) inside entered → place.Reaches s inside entered c st →
    Moment.EndsWith ⟨caller, .eval e, before⟩ (.done v st') ⟨c, .exec s, st⟩
  /-- With registers no return waits behind the call. -/
  taken : ∀ (place : Place) (caller : Context) (e : Expr) (before : State) (inside : Context) (entered : State),
    Calls caller before e (place.fill s) inside entered → place.Reaches s inside entered c st →
    ∃ n, ∀ k, n ≤ k → Visit.expr k ⟨caller.limit, caller.room, caller.time⟩ e
      ⟨caller.scope, caller.depth, false, before⟩ = .done () ⟨caller.scope, caller.depth, false, st'⟩
  /-- Outside of all calls the program ends with the value. -/
  program : ∀ (place : Place) (outer : Context) (location : Location) (before : State),
    place.Reaches s outer before c st →
    Moment.EndsWith ⟨outer, .execAll none (place.fill s), before⟩ (.done (.returned v) st') ⟨c, .exec s, st⟩ ∧
      ∃ n, ∀ k, n ≤ k → Evaluation.program k outer ⟨location, place.fill s⟩ before = .done (some v) st'

theorem exec_unwound (returns : exec n c s st = .done (.returned v) st') : Unwound s c st v st' := by
  have latest := (exec_waits returns).1
  have here : Moment.Unwinds ⟨c, .exec s, st⟩ v st' ⟨c, .exec s, st⟩ := ⟨_, rfl, .refl (n := n) returns (by simp)⟩
  have surrounding (around : Surrounding) (outer : Context) (before : State)
      (reaches : around.Reaches s outer before c st) :
      Moment.EndsWith ⟨outer, .exec (around.fill s), before⟩ (.done (.returned v) st') ⟨c, .exec s, st⟩ := by
    obtain ⟨result, same, ends⟩ := here.of_leads reaches.leads
    cases same
    exact ends
  have placed {place : Place} {outer : Context} {before : State} (reaches : place.Reaches s outer before c st) :
      Moment.EndsWith ⟨outer, .execAll none (place.fill s), before⟩ (.done (.returned v) st') ⟨c, .exec s, st⟩ := by
    obtain ⟨result, same, ends⟩ := here.of_leads reaches.leads
    cases same
    exact ends
  have called {place : Place} {caller : Context} {e : Expr} {before : State} {inside : Context} {entered : State}
      (calls : Calls caller before e (place.fill s) inside entered) (reaches : place.Reaches s inside entered c st) :
      Moment.EndsWith ⟨caller, .eval e, before⟩ (.done v st') ⟨c, .exec s, st⟩ := by
    have ends := calls.ends (placed reaches)
    subst latest
    exact ends
  refine ⟨surrounding, fun _ _ _ _ _ _ _ _ outer before reaches => ?_,
    ⟨latest, fun around outer before reaches => ?_⟩, fun _ _ _ _ _ _ calls reaches => called calls reaches,
    fun _ _ _ _ _ _ calls reaches => ?_, fun place outer location before reaches => ⟨placed reaches, ?_⟩⟩
  · rw [← Surrounding.fill_forBody]
    exact surrounding _ outer before reaches
  · obtain ⟨n, ends⟩ := surrounding around outer before reaches
    exact ⟨n, fun k le => (exec_waits (ends k le).1).2⟩
  · obtain ⟨n, ends⟩ := called calls reaches
    exact ⟨n, fun k le => eval_waits (ends k le).1⟩
  · obtain ⟨n, ends⟩ := placed reaches
    refine ⟨n, fun k le => ?_⟩
    have run : execAll k outer none (place.fill s) before = .done (.returned v) st' := (ends k le).1
    rw [Evaluation.program, Run.bind_apply, run]
    rfl

/-- A call in which no return statement is executed has the value null. -/
theorem Calls.null {e : Expr} {body : List Stmt} {inside : Context} {entered : State}
    (calls : Calls c st e body inside entered) {completion : Completion}
    (executed : execAll n inside none body entered = .done completion st')
    (silent : ∀ v after, ¬ Moment.Returns ⟨inside, .execAll none body, entered⟩ v after) :
    ∃ n, ∀ k, n ≤ k → eval k c e st = .done .null { st' with latest := .null } := by
  cases completion with
  | returned v => exact absurd ((Returning.all n).execAll executed) (silent v st')
  | normal value =>
    have body : Moment.EndsWith ⟨inside, .execAll none body, entered⟩ (.done (.normal value) st') _ :=
      .refl (n := n) executed (by simp)
    obtain ⟨n, ends⟩ := calls.ends body
    exact ⟨n, fun k le => (ends k le).1⟩

/-- A return ends everything around it in one call, at once and with its value. What is called without a return has the
value null. -/
theorem return_unwinds :
    (∀ (s : Stmt) (c : Context) (st : State) (n : Nat) (v : Value) (st' : State),
      exec n c s st = .done (.returned v) st' → Unwound s c st v st') ∧
    (∀ (c : Context) (st : State) (n : Nat) (location : Location) (value : Option Expr) (v : Value) (st' : State),
      exec n c (.returns location value) st = .done (.returned v) st' →
        (value = none → v = .null) ∧ ∀ e, value = some e → ∃ k, eval k c.inside e st = .done v st') ∧
    (∀ (c : Context) (st : State) (e : Expr) (body : List Stmt) (inside : Context) (entered : State) (n : Nat)
      (completion : Completion) (st' : State), Calls c st e body inside entered →
      execAll n inside none body entered = .done completion st' →
      (∀ v after, ¬ Moment.Returns ⟨inside, .execAll none body, entered⟩ v after) →
        ∃ n, ∀ k, n ≤ k → eval k c e st = .done .null { st' with latest := .null }) :=
  ⟨fun _ _ _ _ _ _ returns => exec_unwound returns, fun _ _ _ _ _ _ _ returns => exec_return_value returns,
    fun _ _ _ _ _ _ _ _ _ calls executed silent => calls.null executed silent⟩

/-- A loop around a branch, with something behind each of them. -/
def branching : Place where
  before := []
  inner := .whileBody ⟨1, 15⟩ (.boolean ⟨1, 22⟩ true) (.block ⟨1, 28⟩ []
    (.thenBranch ⟨1, 30⟩ (.boolean ⟨1, 34⟩ true) .hole none) [.expression ⟨1, 52⟩ (.null ⟨1, 52⟩)])
  after := [.expression ⟨1, 60⟩ (.null ⟨1, 60⟩)]

/-- The call `function () { while (true) { if (true) return "a"; null; } null; }()`. -/
theorem return_unwinds_branching :
    let s : Stmt := .returns ⟨1, 40⟩ (some (.string ⟨1, 47⟩ "a"))
    let literal : FunctionLiteral := ⟨⟨1, 1⟩, [], [], ⟨1, 13⟩, branching.fill s⟩
    let call : Expr := .call ⟨1, 67⟩ (.function literal) []
    ∃ (caller : Context) (before : State) (c : Context) (st st' : State),
      Unwound s c st (.string (Text.packed "a")) st' ∧
      Moment.EndsWith ⟨caller, .eval call, before⟩ (.done (.string (Text.packed "a")) st') ⟨c, .exec s, st⟩ := by
  intro s literal call
  let caller : Context := ⟨0, 0, 1, 9, 0⟩
  let before : State := ⟨(Store.empty.newScope none).2, #[], .null⟩
  have comes : ∃ inside entered c st st', Calls caller before call (branching.fill s) inside entered ∧
      branching.Reaches s inside entered c st ∧ exec 2 c s st = .done (.returned (.string (Text.packed "a"))) st' :=
    ⟨_, _, _, _, _, @Calls.intro _ _ _ _ 2 1 _ _ _ _ _ ⟨literal, 0⟩ rfl rfl rfl rfl rfl,
      ⟨1, none, _, rfl, .whileBody (n := 2) .none rfl rfl (.block (n := 1) rfl (.thenBranch (n := 2) rfl rfl .hole))⟩,
      rfl⟩
  obtain ⟨inside, entered, c, st, st', calls, reaches, returns⟩ := comes
  have unwound := return_unwinds.1 s c st 2 _ st' returns
  exact ⟨caller, before, c, st, st', unwound, unwound.call branching caller call before inside entered calls reaches⟩

end TinyScript
