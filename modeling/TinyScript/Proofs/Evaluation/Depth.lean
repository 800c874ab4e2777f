import TinyScript.Proofs.Evaluation.Moments

namespace TinyScript

open Evaluation

variable {α β : Type}

/-- What has been printed in the one state is the beginning of what has been printed in the other. -/
def State.Prints (a b : State) : Prop := a.printed.toList <+: b.printed.toList

namespace State.Prints

theorem refl (st : State) : st.Prints st := List.prefix_rfl

theorem trans {a b c : State} (first : a.Prints b) (second : b.Prints c) : a.Prints c :=
  List.IsPrefix.trans first second

end State.Prints

/-- A run leaves what has been printed, and may print more. -/
def Run.Appends (x : Run α) : Prop := ∀ st st', (x st).state? = some st' → st.Prints st'

namespace Run.Appends

variable {x : Run α} {f : α → Run β}

theorem bind (first : x.Appends) (later : ∀ a, (f a).Appends) : (x >>= f).Appends := by
  intro st st' ends
  rw [Run.bind_apply] at ends
  have first := first st
  cases run : x st with
  | done a between =>
    rw [run] at ends first
    exact (first between rfl).trans (later a between st' ends)
  | failed error between =>
    rw [run] at ends first
    exact first st' ends
  | unfinished =>
    rw [run] at ends
    cases ends

theorem pure (a : α) : (Pure.pure a : Run α).Appends := by
  rintro st _ ⟨⟩
  exact .refl st

theorem fail {line : Nat} {fault : Fault} : (Run.fail line fault : Run α).Appends := by
  rintro st _ ⟨⟩
  exact .refl st

theorem reading (g : Store → α) : (Run.reading g).Appends := by
  rintro st _ ⟨⟩
  exact .refl st

theorem creating (g : Store → α × Store) : (Run.creating g).Appends := by
  rintro st _ ⟨⟩
  exact .refl st

theorem changing (g : Store → Store) : (Run.changing g).Appends := by
  rintro st _ ⟨⟩
  exact .refl st

theorem keep (v : Value) : (Run.keep v).Appends := by
  rintro st _ ⟨⟩
  exact .refl st

theorem print (t : Text) : (Run.print t).Appends := by
  rintro st _ ⟨⟩
  exact ⟨[t], by simp⟩

theorem binary (op : BinaryOperator) (line : Nat) (v w : Value) : (op.apply line v w).Appends := by
  unfold BinaryOperator.apply
  split
  · exact pure _
  · exact pure _
  · exact pure _
  · exact (reading _).bind fun _ => pure _
  · exact (reading _).bind fun _ => pure _
  · exact fail

theorem unary (op : UnaryOperator) (line : Nat) (v : Value) : (op.apply line v).Appends := by
  unfold UnaryOperator.apply
  split
  · exact pure _
  · exact pure _
  · exact fail

theorem index (line : Nat) (v w : Value) : (v.at line w).Appends := by
  unfold Value.at
  split
  · exact reading _
  · exact pure _
  · exact reading _
  · exact fail
  · exact fail

theorem body (which : Builtin) (time : Float) (line : Nat) (arguments : List Value) :
    (which.body time line arguments).Appends := by
  unfold Builtin.body
  split
  · exact (reading _).bind fun _ => (print _).bind fun _ => pure _
  · exact (reading _).bind fun _ => (print _).bind fun _ => pure _
  · exact pure _
  · exact reading _
  · exact reading _
  · exact pure _
  · exact reading _
  · exact pure _
  · exact reading _
  · exact pure _
  · refine (reading _).bind fun elements => ?_
    split
    · exact pure _
    · exact (creating _).bind fun _ => pure _
  · exact (changing _).bind fun _ => pure _
  · exact pure _
  · exact reading _
  · exact pure _
  · exact fail
  · exact pure _

theorem builtin (which : Builtin) (time : Float) (line : Nat) (arguments : List Value) :
    (which.apply time line arguments).Appends := by
  unfold Builtin.apply
  split
  · exact body which time line arguments
  · split
    · exact body which time line arguments
    · exact fail

theorem variableValue (context : Context) (line : Nat) (name : Text) :
    (Evaluation.variableValue context line name).Appends := by
  refine (reading _).bind fun found => ?_
  cases found with
  | none => exact fail
  | some v => exact pure v

theorem assignVariable (context : Context) (line : Nat) (name : Text) (v : Value) :
    (Evaluation.assignVariable context line name v).Appends := by
  refine (reading _).bind fun found => ?_
  cases found with
  | none => exact fail
  | some scope => exact changing _

theorem functionValue (context : Context) (literal : FunctionLiteral) :
    (Evaluation.functionValue context literal).Appends := by
  unfold Evaluation.functionValue
  split
  · exact (creating _).bind fun _ => pure _
  · exact (creating _).bind fun _ => (creating _).bind fun _ => (changing _).bind fun _ => pure _

theorem withoutValue : Evaluation.withoutValue.Appends := (keep _).bind fun _ => pure _

end Run.Appends

/-- A task in a context has the limit of the context. It has some calls more around it, and no more than may be. -/
structure Inside (outer : Context) (calls : Nat) (m : Moment) : Prop where
  limit : m.context.limit = outer.limit
  depth : m.context.depth = outer.depth + calls
  bound : m.context.depth ≤ max outer.depth outer.limit

namespace Script

/-- From every state the script prints more, if anything, and comes to tasks inside of a context. -/
def Prints (outer : Context) (calls : Nat) (x : Script α) : Prop :=
  ∀ st, (x st).Keeps State.Prints (Inside outer calls) st

end Script

namespace Script.Prints

variable {outer : Context} {calls : Nat} {x : Script α} {f : α → Script β}

theorem bind (first : Prints outer calls x) (later : ∀ a, Prints outer calls (f a)) : Prints outer calls (x >>= f) :=
  fun st => (first st).bind State.Prints.trans later

theorem own {x : Run α} (appends : x.Appends) : Prints outer calls (Script.own x) := appends

theorem pure (a : α) : Prints outer calls (Pure.pure a : Script α) := Run.Appends.pure a

/-- A task one level further in. -/
theorem ask {context : Context} {t : Task} (inside : ∀ st, Inside outer calls ⟨context, t, st⟩) :
    Prints outer calls (Script.ask context t) := by
  refine fun st => ⟨.refl st, inside st, fun a between prints => ?_⟩
  rintro _ ⟨⟩
  exact .refl between

/-- A task without a call, in another scope perhaps. -/
theorem part {context : Context} (limit : context.limit = outer.limit) (depth : context.depth = outer.depth)
    (t : Task) : Prints outer 0 (Script.ask context t) :=
  ask fun _ => ⟨limit, depth, depth ▸ Nat.le_max_left _ _⟩

theorem here (t : Task) : Prints outer 0 (Script.ask outer t) := by
  have same : outer.limit = outer.limit := rfl
  exact part same rfl t

theorem inScope (scope : ScopeId) (t : Task) : Prints outer 0 (Script.ask { outer.inside with scope } t) := by
  have limit : ({ outer.inside with scope } : Context).limit = outer.limit := rfl
  have depth : ({ outer.inside with scope } : Context).depth = outer.depth := rfl
  exact part limit depth t

theorem within (t : Task) : Prints outer 0 (Script.ask outer.inside t) := inScope outer.scope t

/-- The body of a closure has one call more around it. -/
theorem called (place : outer.depth + 1 ≤ outer.limit) (locals : ScopeId) (t : Task) :
    Prints outer 1 (Script.ask (outer.called locals) t) := by
  have limit : (outer.called locals).limit = outer.limit := rfl
  have depth : (outer.called locals).depth = outer.depth + 1 := rfl
  exact ask fun _ => ⟨limit, depth, Nat.le_trans place (Nat.le_max_right _ _)⟩

theorem keeping {x : Script Value} (prints : Prints outer calls x) : Prints outer calls (Script.keeping x) :=
  prints.bind fun v => (own (.keep v)).bind fun _ => pure v

variable (outer)

theorem eval (e : Expr) : Prints outer 0 (Script.eval outer e) := by
  refine keeping ?_
  cases e with
  | identifier location name => exact own (.variableValue _ _ _)
  | number location value => exact pure _
  | string location value => exact pure _
  | boolean location value => exact pure _
  | null location => exact pure _
  | array location elements =>
    exact (within (.evalAll _ _)).bind fun _ => (own (.creating _)).bind fun _ => pure _
  | object location pairs =>
    exact (within (.evalPairs _ _)).bind fun _ => (own (.creating _)).bind fun _ => pure _
  | function literal => exact own (.functionValue _ _)
  | assign location name value =>
    exact (within (.eval _)).bind fun _ => (own (.assignVariable _ _ _ _)).bind fun _ => pure _
  | unary location op operand => exact (within (.eval _)).bind fun _ => own (.unary _ _ _)
  | binary location op left right =>
    exact (within (.eval _)).bind fun _ => (within (.eval _)).bind fun _ => own (.binary _ _ _ _)
  | logical location op left right =>
    refine (within (.eval _)).bind fun v => ?_
    split
    · exact pure _
    · exact within (.eval _)
  | call location callee arguments =>
    exact (within (.eval _)).bind fun _ => (within (.evalAll _ _)).bind fun _ =>
      within (.apply _ _ _)
  | index location left index =>
    exact (within (.eval _)).bind fun _ => (within (.eval _)).bind fun _ => own (.index _ _ _)

theorem evalAll (values : List Value) (es : List Expr) : Prints outer 0 (Script.evalAll outer values es) := by
  cases es with
  | nil => exact pure _
  | cons e more => exact (here (.eval _)).bind fun _ => here (.evalAll _ _)

theorem evalPairs (entries : List (Text × Value)) (pairs : List (Text × Expr)) :
    Prints outer 0 (Script.evalPairs outer entries pairs) := by
  cases pairs with
  | nil => exact pure _
  | cons pair more => exact (here (.eval _)).bind fun _ => here (.evalPairs _ _)

theorem apply (line : Nat) (callee : Value) (arguments : List Value) :
    Prints outer 1 (Script.apply outer line callee arguments) := by
  unfold Script.apply
  split
  · exact own (.builtin _ _ _ _)
  · refine (own (.reading _)).bind fun found => ?_
    cases found with
    | none => exact own .fail
    | some closure =>
      dsimp only
      split
      · exact own .fail
      · split
        · exact own .fail
        · next free =>
          have place : outer.depth + 1 ≤ outer.limit := by
            simp only [Context.isFull, Bool.or_eq_true, decide_eq_true_eq, not_or] at free
            omega
          refine (own (.creating _)).bind fun locals => (own (.changing _)).bind fun _ => ?_
          refine (called place locals (.execAll _ _)).bind fun completion => ?_
          cases completion with
          | returned value => exact pure _
          | normal value => exact pure _
  · exact own .fail

theorem exec (s : Stmt) : Prints outer 0 (Script.exec outer s) := by
  unfold Script.exec
  cases s with
  | var location name value =>
    cases value with
    | none => exact (own (.changing _)).bind fun _ => own .withoutValue
    | some e =>
      exact (within (.eval _)).bind fun _ => (own (.changing _)).bind fun _ => own .withoutValue
  | function literal =>
    exact (own (.creating _)).bind fun _ => (own (.changing _)).bind fun _ => own .withoutValue
  | expression location e => exact (within (.eval _)).bind fun _ => pure _
  | returns location value =>
    cases value with
    | none => exact (own (.keep _)).bind fun _ => pure _
    | some e => exact (within (.eval _)).bind fun _ => pure _
  | block location body =>
    refine (own (.creating _)).bind fun inner => (inScope inner (.execAll _ _)).bind fun completion => ?_
    cases completion with
    | returned value => exact pure _
    | normal value => exact pure _
  | ifElse location condition consequence alternative =>
    refine (within (.eval _)).bind fun v => ?_
    generalize (if v.truthy then some consequence else alternative) = chosen
    cases chosen with
    | none => exact own .withoutValue
    | some chosen =>
      refine (within (.exec _)).bind fun completion => ?_
      cases completion with
      | returned value => exact pure _
      | normal value => exact own .withoutValue
  | whileLoop location condition body => exact within (.loop _ _)

theorem execAll (last : Option Value) (stmts : List Stmt) : Prints outer 0 (Script.execAll outer last stmts) := by
  cases stmts with
  | nil => exact pure _
  | cons s more =>
    refine (here (.exec _)).bind fun completion => ?_
    cases completion with
    | returned value => exact pure _
    | normal value => exact here (.execAll _ _)

theorem loop (condition : Expr) (body : Stmt) : Prints outer 0 (Script.loop outer condition body) := by
  refine (here (.eval _)).bind fun v => ?_
  split
  · refine (here (.exec _)).bind fun completion => ?_
    cases completion with
    | returned value => exact pure _
    | normal value => exact here (.loop _ _)
  · exact own .withoutValue

end Script.Prints

/-- Printing goes on, and the depth counts the calls. -/
theorem kept_prints : Kept State.Prints fun m => Inside m.context m.task.calls where
  refl := .refl
  trans := .trans
  scripts := fun ⟨context, task, st⟩ => by
    cases task with
    | eval e => exact Script.Prints.eval context e st
    | evalAll values es => exact Script.Prints.evalAll context values es st
    | evalPairs entries pairs => exact Script.Prints.evalPairs context entries pairs st
    | apply line callee arguments => exact Script.Prints.apply context line callee arguments st
    | exec s => exact Script.Prints.exec context s st
    | execAll last stmts => exact Script.Prints.execAll context last stmts st
    | loop condition body => exact Script.Prints.loop context condition body st

namespace Within

variable {root m : Moment} {k : Nat}

/-- The depth of a task is the number of calls around it, and it goes up to the limit only. -/
theorem inside (within : Within root k m) : Inside root.context k m := by
  induction within with
  | start => exact ⟨rfl, rfl, Nat.le_max_left _ _⟩
  | part _ comes ih =>
    have inside := kept_prints.comes (kept_prints.scripts _) comes
    refine ⟨inside.limit.trans ih.limit, ?_, Nat.le_trans inside.bound ?_⟩
    · rw [inside.depth, ih.depth, Nat.add_assoc]
    · rw [ih.limit]
      exact Nat.max_le.2 ⟨ih.bound, Nat.le_max_right _ _⟩

end Within

end TinyScript
