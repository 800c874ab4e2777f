import TinyScript.Proofs.Guise.Sessions

namespace TinyScript

/-- What a name is the name of. -/
inductive Named where
  | var
  | function
  deriving DecidableEq

mutual

/-- The names in an expression, in the order of the source. Keys and members are no names. -/
def Expr.names : Expr → List (Named × Text)
  | .identifier _ name => [(.var, name)]
  | .number _ _ | .string _ _ | .boolean _ _ | .null _ => []
  | .array _ elements => Expr.allNames elements
  | .object _ pairs => Expr.pairsNames pairs
  | .function literal => (if literal.name = [] then [] else [(.function, literal.name)]) ++ literal.names
  | .assign _ name value => (.var, name) :: value.names
  | .unary _ _ operand => operand.names
  | .binary _ _ left right | .logical _ _ left right => left.names ++ right.names
  | .call _ callee arguments => callee.names ++ Expr.allNames arguments
  | .index _ left index => left.names ++ index.names

def Expr.allNames : List Expr → List (Named × Text)
  | [] => []
  | e :: more => e.names ++ Expr.allNames more

def Expr.pairsNames : List (Text × Expr) → List (Named × Text)
  | [] => []
  | (_, e) :: more => e.names ++ Expr.pairsNames more

def Stmt.names : Stmt → List (Named × Text)
  | .var _ name none => [(.var, name)]
  | .var _ name (some value) => (.var, name) :: value.names
  | .function literal => (.function, literal.name) :: literal.names
  | .expression _ value => value.names
  | .returns _ none => []
  | .returns _ (some value) => value.names
  | .block _ body => Stmt.allNames body
  | .ifElse _ condition consequence none => condition.names ++ consequence.names
  | .ifElse _ condition consequence (some alternative) =>
    condition.names ++ consequence.names ++ alternative.names
  | .whileLoop _ condition body => condition.names ++ body.names

def Stmt.allNames : List Stmt → List (Named × Text)
  | [] => []
  | s :: more => s.names ++ Stmt.allNames more

/-- The names of parameters and those in the body. -/
def FunctionLiteral.names : FunctionLiteral → List (Named × Text)
  | ⟨_, _, parameters, _, body⟩ => parameters.map (.var, ·) ++ Stmt.allNames body

end

def Program.names (p : Program) : List (Named × Text) := Stmt.allNames p.statements

mutual

/-- The expression with other names for variables. Functions, keys and members keep their names. -/
def Expr.rename (ρ : Text → Text) : Expr → Expr
  | .identifier location name => .identifier location (ρ name)
  | .number location value => .number location value
  | .string location value => .string location value
  | .boolean location value => .boolean location value
  | .null location => .null location
  | .array location elements => .array location (Expr.renameAll ρ elements)
  | .object location pairs => .object location (Expr.renamePairs ρ pairs)
  | .function literal => .function (literal.rename ρ)
  | .assign location name value => .assign location (ρ name) (value.rename ρ)
  | .unary location op operand => .unary location op (operand.rename ρ)
  | .binary location op left right => .binary location op (left.rename ρ) (right.rename ρ)
  | .logical location op left right => .logical location op (left.rename ρ) (right.rename ρ)
  | .call location callee arguments => .call location (callee.rename ρ) (Expr.renameAll ρ arguments)
  | .index location left index => .index location (left.rename ρ) (index.rename ρ)

def Expr.renameAll (ρ : Text → Text) : List Expr → List Expr
  | [] => []
  | e :: more => e.rename ρ :: Expr.renameAll ρ more

def Expr.renamePairs (ρ : Text → Text) : List (Text × Expr) → List (Text × Expr)
  | [] => []
  | (key, e) :: more => (key, e.rename ρ) :: Expr.renamePairs ρ more

def Stmt.rename (ρ : Text → Text) : Stmt → Stmt
  | .var location name none => .var location (ρ name) none
  | .var location name (some value) => .var location (ρ name) (some (value.rename ρ))
  | .function literal => .function (literal.rename ρ)
  | .expression location value => .expression location (value.rename ρ)
  | .returns location none => .returns location none
  | .returns location (some value) => .returns location (some (value.rename ρ))
  | .block location body => .block location (Stmt.renameAll ρ body)
  | .ifElse location condition consequence none => .ifElse location (condition.rename ρ) (consequence.rename ρ) none
  | .ifElse location condition consequence (some alternative) =>
    .ifElse location (condition.rename ρ) (consequence.rename ρ) (some (alternative.rename ρ))
  | .whileLoop location condition body => .whileLoop location (condition.rename ρ) (body.rename ρ)

def Stmt.renameAll (ρ : Text → Text) : List Stmt → List Stmt
  | [] => []
  | s :: more => s.rename ρ :: Stmt.renameAll ρ more

def FunctionLiteral.rename (ρ : Text → Text) : FunctionLiteral → FunctionLiteral
  | ⟨location, name, parameters, bodyLocation, body⟩ =>
    ⟨location, name, parameters.map ρ, bodyLocation, Stmt.renameAll ρ body⟩

end

def Program.rename (ρ : Text → Text) (p : Program) : Program := ⟨p.location, Stmt.renameAll ρ p.statements⟩

/-- A problem with a variable is a problem with the one that has its new name. -/
def Fault.rename (ρ : Text → Text) : Fault → Fault
  | .undefinedVariable name => .undefinedVariable (ρ name)
  | fault => fault

def RuntimeError.rename (ρ : Text → Text) (e : RuntimeError) : RuntimeError := ⟨e.line, e.fault.rename ρ⟩

/-- What a program with other names reports: the same texts, and the same error but for the name in it. -/
structure Report.Renamed (ρ : Text → Text) (r r' : Report) : Prop where
  printed : r'.printed = r.printed
  value : r'.ending.value?.map r'.session.inspect = r.ending.value?.map r.session.inspect
  error : r'.ending.error? = r.ending.error?.map (RuntimeError.rename ρ)
  rejected : r'.ending.isRejected = r.ending.isRejected

namespace Guise

variable {ρ : Text → Text} {g : Guise} {names : Set Text} {later : Float}

/-- Some names are replaced, and different ones stay different. -/
def renamed (ρ : Text → Text) (names : Set Text) (injective : Set.InjOn ρ names) (later : Float) : Guise where
  place := Eq
  name a b := a ∈ names ∧ ρ a = b
  name_unique := by
    rintro a _ c _ ⟨known, rfl⟩ ⟨known', rfl⟩
    exact (injective.eq_iff known known').symm
  older := .empty
  printed := #[]
  sameLatest := True
  time _ := later

/-- A name stands for its new name. A function keeps its name. -/
def Replaces (g : Guise) (ρ : Text → Text) : Named × Text → Prop
  | (.var, a) => g.name a (ρ a)
  | (.function, a) => g.name a a

mutual

theorem Exprs.rename (place : ∀ l, g.place l l) : (e : Expr) → (∀ u ∈ e.names, g.Replaces ρ u) → g.Exprs e (e.rename ρ)
  | .identifier _ _, known => .identifier (place _) (known _ List.mem_cons_self)
  | .number _ _, _ => .number (place _)
  | .string _ _, _ => .string (place _)
  | .boolean _ _, _ => .boolean (place _)
  | .null _, _ => .null (place _)
  | .array _ elements, known => .array (place _) (Lists.rename place elements known)
  | .object _ pairs, known => .object (place _) (Pairs.rename place pairs known)
  | .function literal, known =>
    have ⟨own, inside⟩ := List.forall_mem_append.1 known
    .lambda (fun named => own (.function, literal.name) (by rw [if_neg named]; exact List.mem_cons_self))
      (Functions.rename place literal inside)
  | .assign _ _ value, known =>
    have ⟨name, inside⟩ := List.forall_mem_cons.1 known
    .assign (place _) name (Exprs.rename place value inside)
  | .unary _ _ operand, known => .unary (place _) (Exprs.rename place operand known)
  | .binary _ _ left right, known =>
    have ⟨first, second⟩ := List.forall_mem_append.1 known
    .binary (place _) (Exprs.rename place left first) (Exprs.rename place right second)
  | .logical _ _ left right, known =>
    have ⟨first, second⟩ := List.forall_mem_append.1 known
    .logical (place _) (Exprs.rename place left first) (Exprs.rename place right second)
  | .call _ callee arguments, known =>
    have ⟨first, second⟩ := List.forall_mem_append.1 known
    .call (place _) (Exprs.rename place callee first) (Lists.rename place arguments second)
  | .index _ left index, known =>
    have ⟨first, second⟩ := List.forall_mem_append.1 known
    .index (place _) (Exprs.rename place left first) (Exprs.rename place index second)

theorem Lists.rename (place : ∀ l, g.place l l) : (es : List Expr) → (∀ u ∈ Expr.allNames es, g.Replaces ρ u) →
    g.Lists es (Expr.renameAll ρ es)
  | [], _ => .noExprs
  | e :: more, known =>
    have ⟨first, others⟩ := List.forall_mem_append.1 known
    .exprs (Exprs.rename place e first) (Lists.rename place more others)

theorem Pairs.rename (place : ∀ l, g.place l l) : (ps : List (Text × Expr)) →
    (∀ u ∈ Expr.pairsNames ps, g.Replaces ρ u) → g.Pairs ps (Expr.renamePairs ρ ps)
  | [], _ => .noPairs
  | (_, e) :: more, known =>
    have ⟨first, others⟩ := List.forall_mem_append.1 known
    .pairs (Exprs.rename place e first) (Pairs.rename place more others)

theorem Stmts.rename (place : ∀ l, g.place l l) : (s : Stmt) → (∀ u ∈ s.names, g.Replaces ρ u) → g.Stmts s (s.rename ρ)
  | .var _ _ none, known => .varNull (place _) (known _ List.mem_cons_self)
  | .var _ _ (some value), known =>
    have ⟨name, inside⟩ := List.forall_mem_cons.1 known
    .var (place _) name (Exprs.rename place value inside)
  | .function literal, known =>
    have ⟨name, inside⟩ := List.forall_mem_cons.1 known
    .declaration name (Functions.rename place literal inside)
  | .expression _ value, known => .expression (place _) (Exprs.rename place value known)
  | .returns _ none, _ => .returnsNull (place _)
  | .returns _ (some value), known => .returns (place _) (Exprs.rename place value known)
  | .block _ body, known => .block (place _) (Bodies.rename place body known)
  | .ifElse _ condition consequence none, known =>
    have ⟨test, first⟩ := List.forall_mem_append.1 known
    .ifOnly (place _) (Exprs.rename place condition test) (Stmts.rename place consequence first)
  | .ifElse _ condition consequence (some alternative), known =>
    have ⟨before, second⟩ := List.forall_mem_append.1 known
    have ⟨test, first⟩ := List.forall_mem_append.1 before
    .ifElse (place _) (Exprs.rename place condition test) (Stmts.rename place consequence first)
      (Stmts.rename place alternative second)
  | .whileLoop _ condition body, known =>
    have ⟨test, inside⟩ := List.forall_mem_append.1 known
    .whileLoop (place _) (Exprs.rename place condition test) (Stmts.rename place body inside)

theorem Bodies.rename (place : ∀ l, g.place l l) : (ss : List Stmt) → (∀ u ∈ Stmt.allNames ss, g.Replaces ρ u) →
    g.Bodies ss (Stmt.renameAll ρ ss)
  | [], _ => .noStmts
  | s :: more, known =>
    have ⟨first, others⟩ := List.forall_mem_append.1 known
    .stmts (Stmts.rename place s first) (Bodies.rename place more others)

theorem Functions.rename (place : ∀ l, g.place l l) : (f : FunctionLiteral) → (∀ u ∈ f.names, g.Replaces ρ u) →
    g.Functions f (f.rename ρ)
  | ⟨_, _, _, _, body⟩, known =>
    have ⟨names, inside⟩ := List.forall_mem_append.1 known
    .function (place _) (List.forall₂_map_right_iff.2 (List.forall₂_same.2 (List.forall_mem_map.1 names))) (place _)
      (Bodies.rename place body inside)

end

theorem Errors.rename {injective : Set.InjOn ρ names} {e e' : RuntimeError}
    (errors : (renamed ρ names injective later).Errors e e') : e' = e.rename ρ := by
  obtain ⟨line, fault⟩ := e
  obtain ⟨line', fault'⟩ := e'
  obtain ⟨⟨l, l', same, here, there⟩, faults⟩ := errors
  obtain rfl : l = l' := same
  obtain rfl : line' = line := there.symm.trans here
  rw [RuntimeError.rename]
  cases faults with
  | undefinedVariable name => rw [Fault.rename, name.2]
  | same other =>
    cases fault with
    | undefinedVariable a => exact absurd rfl (other a)
    | _ => rfl

theorem Reports.renamed {injective : Set.InjOn ρ names} {r r' : Report}
    (like : (renamed ρ names injective later).Reports r r') : Report.Renamed ρ r r' where
  printed := like.printed
  value := like.inspect
  error := rel_iff_eq_map.1 (rel_imp like.ending.error? fun _ _ => Errors.rename)
  rejected := like.ending.isRejected

end Guise

namespace Session

/-- Names do not matter. A program whose variables get other names, so that different names stay different and
functions and builtins keep theirs, does not end, or prints the same, has the same value and fails at the same line for
the same reason, where a variable that is missing has its new name. -/
theorem interpret_rename (p : Program) (ρ : Text → Text) (limit : Nat) (now later : Float)
    (injective : Set.InjOn ρ {a | a ∈ globalNames ∨ ∃ named, (named, a) ∈ p.names})
    (fixed : ∀ a, a ∈ globalNames ∨ (.function, a) ∈ p.names → ρ a = a)
    (ignores : (start limit now).IgnoresClock p) (steps : Nat) :
    Option.Rel (Report.Renamed ρ) (interpret steps (start limit now) p)
      (interpret steps (start limit later) (p.rename ρ)) := by
  let g := Guise.renamed ρ _ injective later
  have builtins : ∀ a ∈ globalNames, g.name a a := fun a mem => ⟨.inl mem, fixed a (.inl mem)⟩
  have replaces : ∀ u ∈ p.names, g.Replaces ρ u := by
    rintro ⟨named, a⟩ mem
    cases named with
    | var => exact ⟨.inr ⟨_, mem⟩, rfl⟩
    | function => exact ⟨.inr ⟨_, mem⟩, fixed a (.inr mem)⟩
  have sessions : g.Sessions (start limit now) (start limit later) := .start rfl builtins rfl
  have program : g.Bodies p.statements (p.rename ρ).statements := .rename (fun _ => rfl) p.statements replaces
  exact rel_imp (sessions.interpret rfl program (Guise.timely_of_ignoresClock ignores) steps) fun _ _ =>
    Guise.Reports.renamed

/-- The program `function f(x) { return function () { return x; }; } var y = f; print(y(1)()); x;`. -/
def closingOverParameter : Program where
  location := ⟨1, 1⟩
  statements :=
    [.function ⟨⟨1, 1⟩, "f", ["x"], ⟨1, 15⟩,
      [.returns ⟨1, 17⟩ (some (.function ⟨⟨1, 24⟩, [], [], ⟨1, 36⟩,
        [.returns ⟨1, 38⟩ (some (.identifier ⟨1, 45⟩ "x"))]⟩))]⟩,
      .var ⟨1, 53⟩ "y" (some (.identifier ⟨1, 61⟩ "f")),
      .expression ⟨1, 64⟩ (.call ⟨1, 69⟩ (.identifier ⟨1, 64⟩ "print")
        [.call ⟨1, 74⟩ (.call ⟨1, 71⟩ (.identifier ⟨1, 70⟩ "y") [.number ⟨1, 72⟩ 1]) []]),
      .expression ⟨1, 79⟩ (.identifier ⟨1, 79⟩ "x")]

/-- The names `x` and `y` change places. -/
def exchange : Equiv.Perm Text := Equiv.swap "x" "y"

/-- When `x` and `y` change places the closure still sees the parameter of `f`, and the name in the error changes. -/
theorem interpret_rename_closure : ∃ r r' : Report,
    interpret 40 (start 8 0) closingOverParameter = some r ∧
    interpret 40 (start 8 1) (closingOverParameter.rename exchange) = some r' ∧
    r.printed = "1\n" ∧ r.ending.error? = some ⟨1, .undefinedVariable "x"⟩ ∧
    r'.ending.error? = some ⟨1, .undefinedVariable "y"⟩ ∧ Report.Renamed exchange r r' := by
  have runs : (interpret 40 (start 8 0) closingOverParameter).map (fun r => (r.printed, r.ending.error?)) =
      some (("1\n" : Text), some ⟨1, .undefinedVariable "x"⟩) := by decide +kernel
  obtain ⟨r, run, shown⟩ := Option.map_eq_some_iff.1 runs
  obtain ⟨printed, error⟩ := Prod.mk.inj shown
  have silent : ((start 8 0).begins closingOverParameter).all (fun m => !m.task.callsClock) 40 = true := by
    decide +kernel
  have both := interpret_rename closingOverParameter exchange 8 0 1 exchange.injective.injOn
    (by
      have globals : ∀ a ∈ globalNames, exchange a = a := by decide
      have functions : ∀ u ∈ closingOverParameter.names, u.1 = .function → exchange u.2 = u.2 := by
        decide
      exact fun a => Or.rec (globals a) fun mem => functions _ mem rfl)
    (fun _ m within => by simpa using Moment.all_within within silent) 40
  have runs' : (interpret 40 (start 8 1) (closingOverParameter.rename exchange)).isSome := by decide +kernel
  obtain ⟨r', run'⟩ := Option.isSome_iff_exists.1 runs'
  rw [run, run'] at both
  have renamed := Option.rel_some_some.1 both
  have error' := renamed.error
  rw [error] at error'
  exact ⟨r, r', run, run', printed, error, error'.trans (by decide), renamed⟩

end Session

end TinyScript
