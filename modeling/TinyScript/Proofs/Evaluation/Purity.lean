import TinyScript.Proofs.Evaluation.Moments
import TinyScript.Proofs.Store.Extension

namespace TinyScript

open Evaluation

variable {α β : Type}

/-- Outside of the bodies of its functions the expression calls nothing and assigns nothing. -/
inductive Expr.Pure : Expr → Prop
  | identifier (location : Location) (name : Text) : Pure (.identifier location name)
  | number (location : Location) (value : Float) : Pure (.number location value)
  | string (location : Location) (value : Text) : Pure (.string location value)
  | boolean (location : Location) (value : Bool) : Pure (.boolean location value)
  | null (location : Location) : Pure (.null location)
  | array (location : Location) {elements : List Expr} : (∀ e ∈ elements, Pure e) → Pure (.array location elements)
  | object (location : Location) {pairs : List (Text × Expr)} : (∀ pair ∈ pairs, Pure pair.2) →
      Pure (.object location pairs)
  | function (literal : FunctionLiteral) : Pure (.function literal)
  | unary (location : Location) (op : UnaryOperator) {operand : Expr} : Pure operand → Pure (.unary location op operand)
  | binary (location : Location) (op : BinaryOperator) {left right : Expr} : Pure left → Pure right →
      Pure (.binary location op left right)
  | logical (location : Location) (op : LogicalOperator) {left right : Expr} : Pure left → Pure right →
      Pure (.logical location op left right)
  | index (location : Location) {left index : Expr} : Pure left → Pure index → Pure (.index location left index)

/-- Scopes, arrays, objects and closures that were there are as they were, and nothing has been printed. -/
structure State.Untouched (st st' : State) : Prop where
  store : st.store.Extends st'.store
  printed : st'.printed = st.printed

theorem State.Untouched.refl (st : State) : st.Untouched st := ⟨.refl _, rfl⟩

theorem State.Untouched.trans {st st' st'' : State} (first : st.Untouched st') (second : st'.Untouched st'') :
    st.Untouched st'' := ⟨first.store.trans second.store, second.printed.trans first.printed⟩

/-- The run has ended, with a value or with an error, and has left alone what was there. -/
def Outcome.Quiet (st : State) : Outcome α → Prop
  | done _ st' | failed _ st' => st.Untouched st'
  | unfinished => False

theorem Outcome.Quiet.untouched {o : Outcome α} {st st' : State} (quiet : o.Quiet st) (ends : o.state? = some st') :
    st.Untouched st' := by
  cases o <;> cases ends <;> exact quiet

/-- From every state the run ends and leaves alone what is there. -/
def Run.Quiet (x : Run α) : Prop := ∀ st, (x st).Quiet st

namespace Run.Quiet

variable {x : Run α} {f : α → Run β}

theorem bind (first : x.Quiet) (later : ∀ a, (f a).Quiet) : (x >>= f).Quiet := by
  intro st
  have first := first st
  rw [Run.bind_apply]
  cases run : x st with
  | done a st' =>
    rw [run] at first
    have later := later a st'
    dsimp only
    cases rest : f a st' with
    | done b st'' | failed b st'' =>
      rw [rest] at later
      exact State.Untouched.trans first later
    | unfinished =>
      rw [rest] at later
      exact later
  | failed error st' =>
    rw [run] at first
    exact first
  | unfinished =>
    rw [run] at first
    exact first

theorem pure (a : α) : (Pure.pure a : Run α).Quiet := .refl

theorem fail (line : Nat) (fault : Fault) : (Run.fail line fault : Run α).Quiet := .refl

theorem reading (f : Store → α) : (Run.reading f).Quiet := .refl

theorem creating {f : Store → α × Store} (grown : ∀ s : Store, s.Extends (f s).2) : (Run.creating f).Quiet :=
  fun st => ⟨grown st.store, rfl⟩

theorem keeping {x : Run Value} (quiet : x.Quiet) : x.keeping.Quiet :=
  quiet.bind fun v => bind (x := Run.keep v) (fun _ => ⟨.refl _, rfl⟩) fun _ => pure v

end Run.Quiet

open Run.Quiet

theorem BinaryOperator.apply_quiet (op : BinaryOperator) (line : Nat) (v w : Value) : (op.apply line v w).Quiet := by
  unfold BinaryOperator.apply
  split
  · exact pure _
  · exact pure _
  · exact pure _
  · exact (reading _).bind fun _ => pure _
  · exact (reading _).bind fun _ => pure _
  · exact fail _ _

theorem UnaryOperator.apply_quiet (op : UnaryOperator) (line : Nat) (v : Value) : (op.apply line v).Quiet := by
  unfold UnaryOperator.apply
  split
  · exact pure _
  · exact pure _
  · exact fail _ _

theorem Value.at_quiet (line : Nat) (v i : Value) : (v.at line i).Quiet := by
  unfold Value.at
  split
  · exact reading _
  · exact pure _
  · exact reading _
  · exact fail _ _
  · exact fail _ _

theorem variableValue_quiet (context : Context) (line : Nat) (name : Text) :
    (variableValue context line name).Quiet := by
  refine (reading _).bind fun found => ?_
  cases found with
  | none => exact fail _ _
  | some v => exact pure v

/-- The scope in which a named function sees itself is new. -/
theorem functionValue_quiet (context : Context) (literal : FunctionLiteral) :
    (functionValue context literal).Quiet := by
  unfold functionValue
  split
  · exact (creating fun s => .newClosure s literal context.scope).bind fun _ => pure _
  · intro st
    have grown := (Store.Extends.newScope st.store (some context.scope)).trans
      (.newClosure _ literal st.store.scopes.size)
    exact ⟨grown.define (Nat.lt_irrefl _) _ _, rfl⟩

variable {n : Nat}

/-- The steps suffice for an expression, which leaves alone what is there. -/
def Expr.EndsQuietly (e : Expr) : Prop := ∀ n, sizeOf e ≤ n → ∀ context, (eval n context e).Quiet

theorem Expr.EndsQuietly.of_succ {e : Expr}
    (quiet : ∀ n, sizeOf e ≤ n + 1 → ∀ context, (eval (n + 1) context e).Quiet) : e.EndsQuietly := by
  intro n enough
  have some : 0 < sizeOf e := by cases e <;> simp +arith
  obtain ⟨n, rfl⟩ : ∃ k, n = k + 1 := ⟨n - 1, by omega⟩
  exact quiet n enough

theorem evalAll_quiet {es : List Expr} (quiet : ∀ e ∈ es, e.EndsQuietly) (enough : sizeOf es ≤ n) (context : Context)
    (values : List Value) : (evalAll n context values es).Quiet := by
  induction es generalizing n values with
  | nil =>
    obtain ⟨n, rfl⟩ : ∃ k, n = k + 1 := ⟨n - 1, by simp at enough; omega⟩
    rw [evalAll]
    exact pure _
  | cons e es ih =>
    obtain ⟨here, later⟩ := List.forall_mem_cons.1 quiet
    obtain ⟨n, rfl⟩ : ∃ k, n = k + 1 := ⟨n - 1, by simp at enough; omega⟩
    simp only [List.cons.sizeOf_spec] at enough
    rw [evalAll]
    exact (here n (by omega) context).bind fun v => ih later (by omega) _

theorem evalPairs_quiet {pairs : List (Text × Expr)} (quiet : ∀ pair ∈ pairs, pair.2.EndsQuietly)
    (enough : sizeOf pairs ≤ n) (context : Context) (entries : List (Text × Value)) :
    (evalPairs n context entries pairs).Quiet := by
  induction pairs generalizing n entries with
  | nil =>
    obtain ⟨n, rfl⟩ : ∃ k, n = k + 1 := ⟨n - 1, by simp at enough; omega⟩
    rw [evalPairs]
    exact pure _
  | cons pair pairs ih =>
    obtain ⟨key, e⟩ := pair
    obtain ⟨here, later⟩ := List.forall_mem_cons.1 quiet
    have here : e.EndsQuietly := here
    obtain ⟨n, rfl⟩ : ∃ k, n = k + 1 := ⟨n - 1, by simp at enough; omega⟩
    simp only [List.cons.sizeOf_spec, Prod.mk.sizeOf_spec] at enough
    rw [evalPairs]
    exact (here n (by omega) context).bind fun v => ih later (by omega) _

/-- An expression that neither calls nor assigns comes to an end and leaves alone what is there, also when it fails. -/
theorem Expr.Pure.quiet {e : Expr} (pure : e.Pure) : e.EndsQuietly := by
  induction pure with (refine EndsQuietly.of_succ fun n enough context => ?_)
  | identifier location name => exact (variableValue_quiet _ _ _).keeping
  | number | string | boolean | null => exact (Run.Quiet.pure _).keeping
  | function literal => exact (functionValue_quiet _ _).keeping
  | array location _ ih =>
    simp only [Expr.array.sizeOf_spec] at enough
    exact ((evalAll_quiet ih (by omega) _ _).bind fun values =>
      (creating fun s => .newArray s _).bind fun _ => .pure _).keeping
  | object location _ ih =>
    simp only [Expr.object.sizeOf_spec] at enough
    exact ((evalPairs_quiet ih (by omega) _ _).bind fun entries =>
      (creating fun s => .newObject s _).bind fun _ => .pure _).keeping
  | unary location op _ ih =>
    simp only [Expr.unary.sizeOf_spec] at enough
    exact ((ih n (by omega) _).bind fun v => op.apply_quiet _ v).keeping
  | binary location op _ _ left right =>
    simp only [Expr.binary.sizeOf_spec] at enough
    exact ((left n (by omega) _).bind fun v => (right n (by omega) _).bind fun w => op.apply_quiet _ v w).keeping
  | logical location op _ _ left right =>
    simp only [Expr.logical.sizeOf_spec] at enough
    refine ((left n (by omega) _).bind fun v => ?_).keeping
    split
    · exact .pure v
    · exact right n (by omega) _
  | index location _ _ left index =>
    simp only [Expr.index.sizeOf_spec] at enough
    exact ((left n (by omega) _).bind fun v => (index n (by omega) _).bind fun i => v.at_quiet _ i).keeping

end TinyScript
