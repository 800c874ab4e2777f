import Mathlib.Data.List.Forall2
import TinyScript.Store

namespace TinyScript

/-- How one run may differ from another one that does the same. -/
structure Guise where
  /-- Which places stand for each other. -/
  place : Location → Location → Prop
  /-- Which names stand for each other. -/
  name : Text → Text → Prop
  /-- A name stands for one other name at most, and only one name stands for this. -/
  name_unique : ∀ {a b c d : Text}, name a b → name c d → (a = c ↔ b = d)
  /-- What the other store held before. -/
  older : Store
  /-- What the other run had printed before. -/
  printed : Array Text
  /-- Whether the latest value is the same from the start. -/
  sameLatest : Prop
  /-- What the clock of the other run shows. -/
  time : Float → Float

/-- A part of a program. -/
inductive Fragment where
  | expr (e : Expr)
  | exprs (es : List Expr)
  | pairs (ps : List (Text × Expr))
  | stmt (s : Stmt)
  | stmts (ss : List Stmt)
  | function (literal : FunctionLiteral)

namespace Guise

variable {g : Guise}

/-- The lines of places that stand for each other. -/
def Lines (g : Guise) (line line' : Nat) : Prop := ∃ l l', g.place l l' ∧ l.line = line ∧ l'.line = line'

/-- Parts of programs that differ in places and in the names of variables only. Keys and members are no variables. The
name of a function is printed, so it has to stand for itself where it is bound. -/
inductive Like (g : Guise) : Fragment → Fragment → Prop
  -- Expressions
  | identifier {l l' : Location} {a b : Text} : g.place l l' → g.name a b →
      Like g (.expr (.identifier l a)) (.expr (.identifier l' b))
  | number {l l' : Location} {value : Float} : g.place l l' →
      Like g (.expr (.number l value)) (.expr (.number l' value))
  | string {l l' : Location} {value : Text} : g.place l l' →
      Like g (.expr (.string l value)) (.expr (.string l' value))
  | boolean {l l' : Location} {value : Bool} : g.place l l' →
      Like g (.expr (.boolean l value)) (.expr (.boolean l' value))
  | null {l l' : Location} : g.place l l' → Like g (.expr (.null l)) (.expr (.null l'))
  | array {l l' : Location} {es es' : List Expr} : g.place l l' → Like g (.exprs es) (.exprs es') →
      Like g (.expr (.array l es)) (.expr (.array l' es'))
  | object {l l' : Location} {ps ps' : List (Text × Expr)} : g.place l l' → Like g (.pairs ps) (.pairs ps') →
      Like g (.expr (.object l ps)) (.expr (.object l' ps'))
  | lambda {f f' : FunctionLiteral} : (f.name ≠ [] → g.name f.name f.name) → Like g (.function f) (.function f') →
      Like g (.expr (.function f)) (.expr (.function f'))
  | assign {l l' : Location} {a b : Text} {e e' : Expr} : g.place l l' → g.name a b → Like g (.expr e) (.expr e') →
      Like g (.expr (.assign l a e)) (.expr (.assign l' b e'))
  | unary {l l' : Location} {op : UnaryOperator} {e e' : Expr} : g.place l l' → Like g (.expr e) (.expr e') →
      Like g (.expr (.unary l op e)) (.expr (.unary l' op e'))
  | binary {l l' : Location} {op : BinaryOperator} {e e' f f' : Expr} : g.place l l' → Like g (.expr e) (.expr e') →
      Like g (.expr f) (.expr f') → Like g (.expr (.binary l op e f)) (.expr (.binary l' op e' f'))
  | logical {l l' : Location} {op : LogicalOperator} {e e' f f' : Expr} : g.place l l' → Like g (.expr e) (.expr e') →
      Like g (.expr f) (.expr f') → Like g (.expr (.logical l op e f)) (.expr (.logical l' op e' f'))
  | call {l l' : Location} {e e' : Expr} {es es' : List Expr} : g.place l l' → Like g (.expr e) (.expr e') →
      Like g (.exprs es) (.exprs es') → Like g (.expr (.call l e es)) (.expr (.call l' e' es'))
  | index {l l' : Location} {e e' f f' : Expr} : g.place l l' → Like g (.expr e) (.expr e') →
      Like g (.expr f) (.expr f') → Like g (.expr (.index l e f)) (.expr (.index l' e' f'))
  -- Statements
  | varNull {l l' : Location} {a b : Text} : g.place l l' → g.name a b →
      Like g (.stmt (.var l a none)) (.stmt (.var l' b none))
  | var {l l' : Location} {a b : Text} {e e' : Expr} : g.place l l' → g.name a b → Like g (.expr e) (.expr e') →
      Like g (.stmt (.var l a (some e))) (.stmt (.var l' b (some e')))
  | declaration {f f' : FunctionLiteral} : g.name f.name f.name → Like g (.function f) (.function f') →
      Like g (.stmt (.function f)) (.stmt (.function f'))
  | expression {l l' : Location} {e e' : Expr} : g.place l l' → Like g (.expr e) (.expr e') →
      Like g (.stmt (.expression l e)) (.stmt (.expression l' e'))
  | returnsNull {l l' : Location} : g.place l l' → Like g (.stmt (.returns l none)) (.stmt (.returns l' none))
  | returns {l l' : Location} {e e' : Expr} : g.place l l' → Like g (.expr e) (.expr e') →
      Like g (.stmt (.returns l (some e))) (.stmt (.returns l' (some e')))
  | block {l l' : Location} {ss ss' : List Stmt} : g.place l l' → Like g (.stmts ss) (.stmts ss') →
      Like g (.stmt (.block l ss)) (.stmt (.block l' ss'))
  | ifOnly {l l' : Location} {e e' : Expr} {s s' : Stmt} : g.place l l' → Like g (.expr e) (.expr e') →
      Like g (.stmt s) (.stmt s') → Like g (.stmt (.ifElse l e s none)) (.stmt (.ifElse l' e' s' none))
  | ifElse {l l' : Location} {e e' : Expr} {s s' t t' : Stmt} : g.place l l' → Like g (.expr e) (.expr e') →
      Like g (.stmt s) (.stmt s') → Like g (.stmt t) (.stmt t') →
      Like g (.stmt (.ifElse l e s (some t))) (.stmt (.ifElse l' e' s' (some t')))
  | whileLoop {l l' : Location} {e e' : Expr} {s s' : Stmt} : g.place l l' → Like g (.expr e) (.expr e') →
      Like g (.stmt s) (.stmt s') → Like g (.stmt (.whileLoop l e s)) (.stmt (.whileLoop l' e' s'))
  -- Functions
  | function {l l' m m' : Location} {name : Text} {names names' : List Text} {ss ss' : List Stmt} : g.place l l' →
      List.Forall₂ g.name names names' → g.place m m' → Like g (.stmts ss) (.stmts ss') →
      Like g (.function ⟨l, name, names, m, ss⟩) (.function ⟨l', name, names', m', ss'⟩)
  -- Several parts
  | noExprs : Like g (.exprs []) (.exprs [])
  | exprs {e e' : Expr} {es es' : List Expr} : Like g (.expr e) (.expr e') → Like g (.exprs es) (.exprs es') →
      Like g (.exprs (e :: es)) (.exprs (e' :: es'))
  | noPairs : Like g (.pairs []) (.pairs [])
  | pairs {key : Text} {e e' : Expr} {ps ps' : List (Text × Expr)} : Like g (.expr e) (.expr e') →
      Like g (.pairs ps) (.pairs ps') → Like g (.pairs ((key, e) :: ps)) (.pairs ((key, e') :: ps'))
  | noStmts : Like g (.stmts []) (.stmts [])
  | stmts {s s' : Stmt} {ss ss' : List Stmt} : Like g (.stmt s) (.stmt s') → Like g (.stmts ss) (.stmts ss') →
      Like g (.stmts (s :: ss)) (.stmts (s' :: ss'))

section

variable (g : Guise)

abbrev Exprs (e e' : Expr) : Prop := g.Like (.expr e) (.expr e')

abbrev Lists (es es' : List Expr) : Prop := g.Like (.exprs es) (.exprs es')

abbrev Pairs (ps ps' : List (Text × Expr)) : Prop := g.Like (.pairs ps) (.pairs ps')

abbrev Stmts (s s' : Stmt) : Prop := g.Like (.stmt s) (.stmt s')

abbrev Bodies (ss ss' : List Stmt) : Prop := g.Like (.stmts ss) (.stmts ss')

abbrev Functions (f f' : FunctionLiteral) : Prop := g.Like (.function f) (.function f')

end

theorem Like.function_name {f f' : FunctionLiteral} (like : g.Like (.function f) (.function f')) :
    f'.name = f.name := by
  cases like
  rfl

theorem Like.function_parameters {f f' : FunctionLiteral} (like : g.Like (.function f) (.function f')) :
    List.Forall₂ g.name f.parameters f'.parameters := by
  cases like
  assumption

theorem Like.function_body {f f' : FunctionLiteral} (like : g.Like (.function f) (.function f')) :
    g.Like (.stmts f.body) (.stmts f'.body) := by
  cases like
  assumption

/-- Places and names stand for themselves, perhaps among others. -/
structure Plain (g : Guise) : Prop where
  place : ∀ l, g.place l l
  name : ∀ a, g.name a a

mutual

/-- Where places and names stand for themselves a tree is like itself. -/
theorem Exprs.refl (plain : g.Plain) : (e : Expr) → g.Exprs e e
  | .identifier _ _ => .identifier (plain.place _) (plain.name _)
  | .number _ _ => .number (plain.place _)
  | .string _ _ => .string (plain.place _)
  | .boolean _ _ => .boolean (plain.place _)
  | .null _ => .null (plain.place _)
  | .array _ elements => .array (plain.place _) (Lists.refl plain elements)
  | .object _ pairs => .object (plain.place _) (Pairs.refl plain pairs)
  | .function literal => .lambda (fun _ => plain.name _) (Functions.refl plain literal)
  | .assign _ _ value => .assign (plain.place _) (plain.name _) (Exprs.refl plain value)
  | .unary _ _ operand => .unary (plain.place _) (Exprs.refl plain operand)
  | .binary _ _ left right => .binary (plain.place _) (Exprs.refl plain left) (Exprs.refl plain right)
  | .logical _ _ left right => .logical (plain.place _) (Exprs.refl plain left) (Exprs.refl plain right)
  | .call _ callee arguments => .call (plain.place _) (Exprs.refl plain callee) (Lists.refl plain arguments)
  | .index _ left index => .index (plain.place _) (Exprs.refl plain left) (Exprs.refl plain index)

theorem Lists.refl (plain : g.Plain) : (es : List Expr) → g.Lists es es
  | [] => .noExprs
  | e :: more => .exprs (Exprs.refl plain e) (Lists.refl plain more)

theorem Pairs.refl (plain : g.Plain) : (ps : List (Text × Expr)) → g.Pairs ps ps
  | (_, e) :: more => .pairs (Exprs.refl plain e) (Pairs.refl plain more)
  | [] => .noPairs

theorem Stmts.refl (plain : g.Plain) : (s : Stmt) → g.Stmts s s
  | .var _ _ none => .varNull (plain.place _) (plain.name _)
  | .var _ _ (some value) => .var (plain.place _) (plain.name _) (Exprs.refl plain value)
  | .function literal => .declaration (plain.name _) (Functions.refl plain literal)
  | .expression _ value => .expression (plain.place _) (Exprs.refl plain value)
  | .returns _ none => .returnsNull (plain.place _)
  | .returns _ (some value) => .returns (plain.place _) (Exprs.refl plain value)
  | .block _ body => .block (plain.place _) (Bodies.refl plain body)
  | .ifElse _ condition consequence none =>
    .ifOnly (plain.place _) (Exprs.refl plain condition) (Stmts.refl plain consequence)
  | .ifElse _ condition consequence (some alternative) =>
    .ifElse (plain.place _) (Exprs.refl plain condition) (Stmts.refl plain consequence) (Stmts.refl plain alternative)
  | .whileLoop _ condition body => .whileLoop (plain.place _) (Exprs.refl plain condition) (Stmts.refl plain body)

theorem Bodies.refl (plain : g.Plain) : (ss : List Stmt) → g.Bodies ss ss
  | [] => .noStmts
  | s :: more => .stmts (Stmts.refl plain s) (Bodies.refl plain more)

theorem Functions.refl (plain : g.Plain) : (f : FunctionLiteral) → g.Functions f f
  | ⟨_, _, _, _, body⟩ =>
    .function (plain.place _) (List.forall₂_same.2 fun a _ => plain.name a) (plain.place _) (Bodies.refl plain body)

end

/-- Where places and names stand for themselves only, parts that are alike are the same. -/
theorem Like.eq {x y : Fragment} (like : g.Like x y) (place : ∀ l l', g.place l l' → l = l')
    (name : ∀ a b, g.name a b → a = b) : x = y := by
  induction like with
  | function at_ names atBody _ ih =>
    have same := names.imp name
    rw [List.forall₂_eq_eq_eq] at same
    grind
  | _ => grind

end Guise

end TinyScript
