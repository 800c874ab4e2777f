import TinyScript.Proofs.Evaluation.Returns
import TinyScript.Proofs.Evaluation.Registers

namespace TinyScript

open Evaluation

variable {α β γ δ : Type} {scope : ScopeId} {depth n : Nat}

/-- A visit ends like a run. The scope and the depth are given, and what is left besides them is described. -/
inductive Exit.Follows (scope : ScopeId) (depth : Nat) (G : α → State → β → Bool → Prop) : Outcome α → Exit β → Prop
  | done {a : α} {b : β} {st : State} {returning : Bool} :
    G a st b returning → Follows scope depth G (.done a st) (.done b ⟨scope, depth, returning, st⟩)
  | failed {error : RuntimeError} {st : State} :
    Follows scope depth G (.failed error st) (.failed error ⟨scope, depth, false, st⟩)
  | unfinished : Follows scope depth G .unfinished .unfinished

namespace Exit.Follows

variable {G : α → State → β → Bool → Prop} {H : γ → State → δ → Bool → Prop} {o : Outcome α} {exit : Exit β}

theorem bind {f : α → Run γ} {g : β → Registers → Exit δ} (later : ∀ a b st returning, G a st b returning →
      Follows scope depth H (f a st) (g b ⟨scope, depth, returning, st⟩)) :
    Follows scope depth G o exit → Follows scope depth H (match o with
      | .done a st => f a st
      | .failed error st => .failed error st
      | .unfinished => .unfinished) (exit.bind g)
  | .done good => later _ _ _ _ good
  | .failed => .failed
  | .unfinished => .unfinished

theorem leaving {inner : ScopeId} {calls : Nat} {change : Registers → Registers}
    (follows : Follows inner calls G o exit)
    (puts : ∀ returning st, change ⟨inner, calls, returning, st⟩ = ⟨scope, depth, returning, st⟩) :
    Follows scope depth G o (exit.leaving change) := by
  cases follows with
  | done good =>
    rw [Exit.leaving, puts]
    exact .done good
  | failed =>
    rw [Exit.leaving, puts]
    exact .failed
  | unfinished => exact .unfinished

theorem restores {before : Registers} (follows : Follows before.scope before.depth G o exit) :
    exit.Restores before := by
  intro after left
  cases follows with
  | done good =>
    cases left
    exact ⟨rfl, rfl⟩
  | failed =>
    cases left
    exact ⟨rfl, rfl⟩
  | unfinished => cases left

theorem of_done {after : Registers} {b : β} (follows : Follows scope depth G o (.done b after)) :
    ∃ a, o = .done a after.state ∧ G a after.state b after.returning := by
  cases follows with
  | done good => exact ⟨_, rfl, good⟩

theorem outcome {G : α → State → α → Bool → Prop} {exit : Exit α} (follows : Follows scope depth G o exit)
    (told : ∀ a st b returning, G a st b returning → b = a) : exit.outcome = o := by
  cases follows with
  | done good =>
    rw [told _ _ _ _ good]
    rfl
  | failed => rfl
  | unfinished => rfl

end Exit.Follows

theorem Exit.bind_done (exit : Exit α) : exit.bind .done = exit := by cases exit <;> rfl

theorem Run.bind_done (x : Run α) : x >>= pure = x := by
  funext st
  rw [bind_apply]
  cases x st <;> rfl

theorem Run.keeping_bind (x : Run α) (f : α → Run Value) : Run.keeping (x >>= f) = x >>= fun a => .keeping (f a) := by
  funext st
  rw [bind_apply]
  unfold keeping
  rw [bind_apply, bind_apply]
  cases x st <;> rfl

namespace Visit

/-- Where no return waits the visit ends like the run, with the scope and the depth from before. -/
def Follows (scope : ScopeId) (depth : Nat) (G : α → State → β → Bool → Prop) (x : Run α) (y : Visit β) : Prop :=
  ∀ st, Exit.Follows scope depth G (x st) (y ⟨scope, depth, false, st⟩)

/-- The visit yields the same. -/
def Yielded (a : α) (_ : State) (b : α) (returning : Bool) : Prop := b = a ∧ returning = false

/-- The latest value is the same. -/
def Valued (a : Value) (st : State) (_ : Unit) (returning : Bool) : Prop := st.latest = a ∧ returning = false

/-- A return waits with the value that is returned. -/
def Ended : Completion → State → Unit → Bool → Prop
  | .normal _, _, _, returning => returning = false
  | .returned v, st, _, returning => st.latest = v ∧ returning = true

/-- A return waits with the value that is returned, or else it is known what a program yields. -/
def Executed (value? : State → Option Value) : Completion → State → Unit → Bool → Prop
  | .normal value, st, _, returning => value = value? st ∧ returning = false
  | .returned v, st, _, returning => st.latest = v ∧ returning = true

namespace Follows

variable {G : α → State → β → Bool → Prop} {H : γ → State → δ → Bool → Prop} {x : Run α} {y : Visit β}

theorem bind {f : α → Run γ} {g : β → Visit δ} (first : Follows scope depth G x y)
    (later : ∀ a b st returning, G a st b returning →
      Exit.Follows scope depth H (f a st) (g b ⟨scope, depth, returning, st⟩)) :
    Follows scope depth H (x >>= f) (y >>= g) := fun st => .bind later (first st)

theorem step {x : Run α} {y : Visit α} {f : α → Run γ} {g : α → Visit δ} (first : Follows scope depth Yielded x y)
    (later : ∀ a, Follows scope depth H (f a) (g a)) : Follows scope depth H (x >>= f) (y >>= g) := by
  refine first.bind fun a b st returning same => ?_
  obtain ⟨rfl, rfl⟩ := same
  exact later b st

/-- The run goes on with what changes no state, and the visit does not. -/
theorem recast {f : α → Run γ} {H : γ → State → β → Bool → Prop} (follows : Follows scope depth G x y)
    (later : ∀ a b st returning, G a st b returning → ∃ c, f a st = .done c st ∧ H c st b returning) :
    Follows scope depth H (x >>= f) y := by
  intro st
  rw [← Exit.bind_done (y _)]
  refine .bind (fun a b st returning good => ?_) (follows st)
  obtain ⟨c, ends, good⟩ := later a b st returning good
  rw [ends]
  exact .done good

theorem pure (a : α) : Follows scope depth Yielded (Pure.pure a) (Pure.pure a) := fun _ => .done ⟨rfl, rfl⟩

theorem unfinished : Follows scope depth G .unfinished .unfinished := fun _ => .unfinished

theorem own (x : Run α) : Follows scope depth Yielded x (Visit.own x) := by
  intro st
  show Exit.Follows scope depth Yielded (x st) (Exit.ofOutcome _ (x st))
  cases x st with
  | done => exact .done ⟨rfl, rfl⟩
  | failed => exact .failed
  | unfinished => exact .unfinished

theorem here (host : Host) (f : Context → Run α) :
    Follows scope depth Yielded (f (host.context scope depth)) (Visit.here host f) :=
  own (f (host.context scope depth))

/-- Looking where it runs changes nothing. -/
theorem look {host : Host} {f : Context → γ} {g : γ → Visit β}
    (follows : Follows scope depth G x (g (f (host.context scope depth)))) :
    Follows scope depth G x (Visit.here host (fun c => Pure.pure (f c)) >>= g) := follows

theorem fail (line : Nat) (fault : Fault) : Follows scope depth G (.fail line fault) (Visit.own (.fail line fault)) :=
  fun _ => .failed

/-- Inside of another scope it is left again. -/
theorem entering {inner : ScopeId} (follows : Follows inner depth G x y) :
    Follows scope depth G x (Visit.entering inner y) := fun st => (follows st).leaving fun _ _ => rfl

/-- The call is over on the way out. -/
theorem calling (follows : Follows scope (depth + 1) G x y) : Follows scope depth G x (Visit.calling y) :=
  fun st => (follows st).leaving fun _ _ => rfl

theorem keep (v : Value) : Follows scope depth Valued (.keeping (Pure.pure v)) (Visit.own (.keep v)) :=
  fun _ => .done ⟨rfl, rfl⟩

theorem keeping {x : Run Value} {y : Visit Value} (follows : Follows scope depth Yielded x y) :
    Follows scope depth Valued (.keeping x) (y >>= fun v => Visit.own (.keep v)) := follows.step .keep

theorem withoutValue :
    Follows scope depth (Executed fun _ => none) Evaluation.withoutValue (Visit.own (.keep .null)) :=
  fun _ => .done ⟨rfl, rfl⟩

theorem valueOf {x : Run Value} {y : Visit Unit} (follows : Follows scope depth Valued x y) :
    Follows scope depth Yielded x (Visit.valueOf y) := by
  rw [← x.bind_done]
  refine follows.bind fun a _ st returning good => ?_
  obtain ⟨rfl, rfl⟩ := good
  exact .done ⟨rfl, rfl⟩

theorem completionOf {s : Stmt} {x : Run Completion} {y : Visit Unit}
    (follows : Follows scope depth (Executed s.value?) x y) :
    Follows scope depth (fun a _ b _ => b = a) x (Visit.completionOf s y) := by
  rw [← x.bind_done]
  refine follows.bind fun completion _ st returning good => ?_
  cases completion with
  | normal value =>
    obtain ⟨rfl, rfl⟩ := good
    exact .done rfl
  | returned v =>
    obtain ⟨rfl, rfl⟩ := good
    exact .done rfl

/-- Behind a statement that returns nothing more is done, and the return goes on waiting. -/
theorem unlessReturning {value? : State → Option Value} {x : Run Completion} {y z : Visit Unit}
    {f : Completion → Run Completion} {G : Completion → State → Unit → Bool → Prop}
    (first : Follows scope depth (Executed value?) x y) (returns : ∀ v, f (.returned v) = Pure.pure (.returned v))
    (waits : ∀ st, G (.returned st.latest) st () true)
    (later : ∀ value, Follows scope depth G (f (.normal value)) z) :
    Follows scope depth G (x >>= f) (y >>= fun _ => Visit.unlessReturning z) := by
  refine first.bind fun completion _ st returning ended => ?_
  cases completion with
  | normal value =>
    obtain ⟨_, rfl⟩ := ended
    exact later value st
  | returned v =>
    obtain ⟨rfl, rfl⟩ := ended
    rw [returns]
    exact .done (waits st)

end Follows

/-- With these steps both evaluators do the same, wherever they are. -/
structure Same (n : Nat) : Prop where
  expr : ∀ (host : Host) (scope : ScopeId) (depth : Nat) (e : Expr),
    Follows scope depth Valued (eval n (host.context scope depth) e) (expr n host e)
  exprs : ∀ (host : Host) (scope : ScopeId) (depth : Nat) (values : List Value) (es : List Expr),
    Follows scope depth Yielded (evalAll n (host.context scope depth) values es) (exprs n host values es)
  pairValues : ∀ (host : Host) (scope : ScopeId) (depth : Nat) (entries : List (Text × Value))
    (pairs : List (Text × Expr)), Follows scope depth Yielded (evalPairs n (host.context scope depth) entries pairs)
      (pairValues n host entries pairs)
  call : ∀ (host : Host) (scope : ScopeId) (depth line : Nat) (callee : Value) (arguments : List Value),
    Follows scope depth Valued (.keeping (apply n (host.context scope depth) line callee arguments))
      (call n host line callee arguments)
  stmt : ∀ (host : Host) (scope : ScopeId) (depth : Nat) (s : Stmt),
    Follows scope depth (Executed s.value?) (exec n (host.context scope depth) s) (stmt n host s)
  stmts : ∀ (host : Host) (scope : ScopeId) (depth : Nat) (last : Option Value) (stmts : List Stmt),
    Follows scope depth Ended (execAll n (host.context scope depth) last stmts) (Visit.stmts n host stmts)
  repeated : ∀ (host : Host) (scope : ScopeId) (depth : Nat) (condition : Expr) (body : Stmt),
    Follows scope depth (Executed fun _ => none) (loop n (host.context scope depth) condition body)
      (repeated n host condition body)

namespace Same

theorem zero : Same 0 where
  expr _ _ _ _ := .unfinished
  exprs _ _ _ _ _ := .unfinished
  pairValues _ _ _ _ _ := .unfinished
  call _ _ _ _ _ _ := .unfinished
  stmt _ _ _ _ := .unfinished
  stmts _ _ _ _ _ := .unfinished
  repeated _ _ _ _ _ := .unfinished

variable (same : Same n) (host : Host)

include same

theorem value (scope : ScopeId) (depth : Nat) (e : Expr) :
    Follows scope depth Yielded (eval n (host.context scope depth) e) (valueOf (Visit.expr n host e)) :=
  (same.expr host scope depth e).valueOf

theorem succ_expr (scope : ScopeId) (depth : Nat) (e : Expr) :
    Follows scope depth Valued (eval (n + 1) (host.context scope depth) e) (Visit.expr (n + 1) host e) := by
  unfold eval Visit.expr
  cases e with
  | identifier location name => exact .keeping (.here host.inside fun c => variableValue c location.line name)
  | number | string | boolean | null => exact .keep _
  | array _ elements =>
    simp only [Run.keeping_bind]
    refine .step (same.exprs host.inside scope depth [] elements) fun values => ?_
    exact .step (.own _) fun id => .keep _
  | object _ pairs =>
    simp only [Run.keeping_bind]
    refine .step (same.pairValues host.inside scope depth [] pairs) fun entries => ?_
    exact .step (.own _) fun id => .keep _
  | function literal =>
    dsimp only
    unfold functionValue
    split
    · rw [Run.keeping_bind]
      exact .step (.here host.inside fun c => .creating (·.newClosure literal c.scope)) fun closure => .keep _
    · simp only [Run.keeping_bind]
      refine .step (.here host.inside fun c => .creating (·.newScope (some c.scope))) fun inner => .entering ?_
      refine .step (.here host.inside fun c => .creating (·.newClosure literal c.scope)) fun closure st => ?_
      -- Here the value is kept before its name is bound, and there behind it.
      exact .done ⟨rfl, rfl⟩
  | assign location name value =>
    simp only [Run.keeping_bind]
    refine .step (same.value host.inside scope depth value) fun value => ?_
    exact .step (.here host.inside fun c => assignVariable c location.line name value) fun _ => .keep value
  | unary _ op operand =>
    simp only [Run.keeping_bind]
    refine .step (same.value host.inside scope depth operand) fun operand => ?_
    exact .keeping (.own _)
  | binary _ op left right =>
    simp only [Run.keeping_bind]
    refine .step (same.value host.inside scope depth left) fun left => ?_
    refine .step (same.value host.inside scope depth right) fun right => ?_
    exact .keeping (.own _)
  | logical _ op left right =>
    simp only [Run.keeping_bind]
    refine .step (same.value host.inside scope depth left) fun left => ?_
    split
    · exact .keep left
    · exact .keeping (same.value host.inside scope depth right)
  | call location callee arguments =>
    simp only [Run.keeping_bind]
    refine .step (same.value host.inside scope depth callee) fun callee => ?_
    refine .step (same.exprs host.inside scope depth [] arguments) fun arguments => ?_
    exact same.call host.inside scope depth location.line callee arguments
  | index _ left index =>
    simp only [Run.keeping_bind]
    refine .step (same.value host.inside scope depth left) fun left => ?_
    refine .step (same.value host.inside scope depth index) fun index => ?_
    exact .keeping (.own _)

theorem succ_exprs (scope : ScopeId) (depth : Nat) (values : List Value) (es : List Expr) :
    Follows scope depth Yielded (evalAll (n + 1) (host.context scope depth) values es)
      (Visit.exprs (n + 1) host values es) := by
  cases es with
  | nil => exact .pure _
  | cons e more =>
    refine .step (same.value host scope depth e) fun value => ?_
    exact same.exprs host scope depth (value :: values) more

theorem succ_pairValues (scope : ScopeId) (depth : Nat) (entries : List (Text × Value)) (pairs : List (Text × Expr)) :
    Follows scope depth Yielded (evalPairs (n + 1) (host.context scope depth) entries pairs)
      (Visit.pairValues (n + 1) host entries pairs) := by
  cases pairs with
  | nil => exact .pure _
  | cons pair more =>
    refine .step (same.value host scope depth pair.2) fun value => ?_
    exact same.pairValues host scope depth ((pair.1, value) :: entries) more

theorem succ_call (scope : ScopeId) (depth line : Nat) (callee : Value) (arguments : List Value) :
    Follows scope depth Valued (.keeping (apply (n + 1) (host.context scope depth) line callee arguments))
      (Visit.call (n + 1) host line callee arguments) := by
  unfold apply Visit.call
  cases callee with
  | builtin which => exact .keeping (.own (which.apply host.time line arguments))
  | null | boolean | number | string | array | object => exact .fail _ _
  | closure id =>
    simp only [Run.keeping_bind]
    refine .step (.own _) fun found => ?_
    cases found with
    | none => exact .fail _ _
    | some closure =>
      obtain ⟨literal, outer⟩ := closure
      dsimp only
      split
      · exact .fail _ _
      · refine .look ?_
        split
        · exact .fail _ _
        · simp only [Run.keeping_bind]
          refine .calling (.step (.own _) fun locals => .step (.own _) fun _ => .entering ?_)
          -- The body is over, and what it returns is taken.
          have body := same.stmts host.called locals (depth + 1) none literal.body
          refine body.bind fun completion _ st returning ended => ?_
          cases completion with
          | normal value =>
            cases ended
            exact .done ⟨rfl, rfl⟩
          | returned v =>
            obtain ⟨rfl, rfl⟩ := ended
            exact .done ⟨rfl, rfl⟩

theorem succ_stmt (scope : ScopeId) (depth : Nat) (s : Stmt) :
    Follows scope depth (Executed s.value?) (exec (n + 1) (host.context scope depth) s)
      (Visit.stmt (n + 1) host s) := by
  unfold exec Visit.stmt
  cases s with
  | var _ name value =>
    cases value with
    | none =>
      refine .step (.here host.inside fun c => .changing (·.define c.scope name .null)) fun _ => ?_
      exact .withoutValue
    | some e =>
      refine .step (same.value host.inside scope depth e) fun value => ?_
      refine .step (.here host.inside fun c => .changing (·.define c.scope name value)) fun _ => ?_
      exact .withoutValue
  | function literal =>
    refine .step (.here host.inside fun c => .creating (·.newClosure literal c.scope)) fun closure => ?_
    refine .step (.here host.inside fun c => .changing (·.define c.scope literal.name (.closure closure))) fun _ => ?_
    exact .withoutValue
  | expression location e =>
    refine (same.expr host.inside scope depth e).recast fun v _ st returning good => ?_
    obtain ⟨rfl, rfl⟩ := good
    exact ⟨_, rfl, rfl, rfl⟩
  | returns location value =>
    cases value with
    | none => exact fun _ => .done ⟨rfl, rfl⟩
    | some e =>
      refine (same.expr host.inside scope depth e).bind fun v _ st returning good => ?_
      obtain ⟨rfl, rfl⟩ := good
      exact .done ⟨rfl, rfl⟩
  | block location body =>
    refine .step (.here host.inside fun c => .creating (·.newScope (some c.scope))) fun inner => .entering ?_
    refine (same.stmts host.inside inner depth none body).recast fun completion _ st returning ended => ?_
    cases completion with
    | normal value => exact ⟨_, rfl, rfl, ended⟩
    | returned v => exact ⟨_, rfl, ended⟩
  | ifElse location condition consequence alternative =>
    refine .step (same.value host.inside scope depth condition) fun value => ?_
    dsimp only
    generalize (if value.truthy then some consequence else alternative) = chosen
    cases chosen with
    | none => exact .withoutValue
    | some chosen =>
      refine (same.stmt host.inside scope depth chosen).unlessReturning (fun _ => rfl) (fun _ => ⟨rfl, rfl⟩) fun _ => ?_
      exact .withoutValue
  | whileLoop location condition body => exact same.repeated host.inside scope depth condition body

theorem succ_stmts (scope : ScopeId) (depth : Nat) (last : Option Value) (stmts : List Stmt) :
    Follows scope depth Ended (execAll (n + 1) (host.context scope depth) last stmts)
      (Visit.stmts (n + 1) host stmts) := by
  cases stmts with
  | nil => exact fun _ => .done rfl
  | cons s more =>
    refine (same.stmt host scope depth s).unlessReturning (fun _ => rfl) (fun _ => ⟨rfl, rfl⟩) fun value => ?_
    exact same.stmts host scope depth value more

theorem succ_repeated (scope : ScopeId) (depth : Nat) (condition : Expr) (body : Stmt) :
    Follows scope depth (Executed fun _ => none) (loop (n + 1) (host.context scope depth) condition body)
      (Visit.repeated (n + 1) host condition body) := by
  refine .step (same.value host scope depth condition) fun value => ?_
  split
  · refine (same.stmt host scope depth body).unlessReturning (fun _ => rfl) (fun _ => ⟨rfl, rfl⟩) fun _ => ?_
    exact same.repeated host scope depth condition body
  · exact .withoutValue

omit same host in
theorem all (n : Nat) : Same n := by
  induction n with
  | zero => exact .zero
  | succ n ih =>
    exact ⟨ih.succ_expr, ih.succ_exprs, ih.succ_pairValues, ih.succ_call, ih.succ_stmt, ih.succ_stmts, ih.succ_repeated⟩

end Same

variable {host : Host} {regs after : Registers} {e : Expr} {s : Stmt}

theorem expr_follows (n : Nat) (host : Host) (e : Expr) (still : regs.returning = false) :
    Exit.Follows regs.scope regs.depth Valued (eval n (host.context regs.scope regs.depth) e regs.state)
      (expr n host e regs) := by
  obtain ⟨scope, depth, returning, st⟩ := regs
  cases still
  exact (Same.all n).expr host scope depth e st

theorem stmt_follows (n : Nat) (host : Host) (s : Stmt) (still : regs.returning = false) :
    Exit.Follows regs.scope regs.depth (Executed s.value?) (exec n (host.context regs.scope regs.depth) s regs.state)
      (stmt n host s regs) := by
  obtain ⟨scope, depth, returning, st⟩ := regs
  cases still
  exact (Same.all n).stmt host scope depth s st

/-- Behind an expression no return waits. -/
theorem expr_returning (still : regs.returning = false) (done : expr n host e regs = .done () after) :
    after.returning = false := by
  have follows := expr_follows n host e still
  rw [done] at follows
  obtain ⟨_, _, _, returning⟩ := follows.of_done
  exact returning

/-- A return that waits comes from a return statement in the same call. -/
theorem stmt_returning (still : regs.returning = false) (done : stmt n host s regs = .done () after)
    (waits : after.returning = true) :
    Moment.Returns ⟨host.context regs.scope regs.depth, .exec s, regs.state⟩ after.state.latest after.state := by
  have follows := stmt_follows n host s still
  rw [done] at follows
  obtain ⟨completion, run, ended⟩ := follows.of_done
  cases completion with
  | normal value =>
    rw [ended.2] at waits
    cases waits
  | returned v =>
    rw [ended.1]
    exact exec_returns run

/-- Both evaluators give an expression the same value. -/
theorem expr_eval (still : regs.returning = false) : (valueOf (expr n host e) regs).outcome =
    eval n (host.context regs.scope regs.depth) e regs.state := by
  obtain ⟨scope, depth, returning, st⟩ := regs
  cases still
  exact (((Same.all n).expr host scope depth e).valueOf st).outcome fun _ _ _ _ same => same.1

/-- Both evaluators end a statement the same. -/
theorem stmt_exec (still : regs.returning = false) : (completionOf s (stmt n host s) regs).outcome =
    exec n (host.context regs.scope regs.depth) s regs.state := by
  obtain ⟨scope, depth, returning, st⟩ := regs
  cases still
  exact (((Same.all n).stmt host scope depth s).completionOf st).outcome fun _ _ _ _ same => same

end Visit

end TinyScript
