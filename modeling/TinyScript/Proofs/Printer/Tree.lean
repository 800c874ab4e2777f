import TinyScript.Program.Printer
import TinyScript.Proofs.Token.Lexed

namespace TinyScript

mutual

/-- The expression with every place moved to the start of the source. -/
def Expr.placeless : Expr → Expr
  | .identifier _ name => .identifier .start name
  | .number _ value => .number .start value
  | .string _ value => .string .start value
  | .boolean _ value => .boolean .start value
  | .null _ => .null .start
  | .array _ elements => .array .start (Expr.allPlaceless elements)
  | .object _ pairs => .object .start (Expr.pairsPlaceless pairs)
  | .function literal => .function literal.placeless
  | .assign _ name value => .assign .start name value.placeless
  | .unary _ op operand => .unary .start op operand.placeless
  | .binary _ op left right => .binary .start op left.placeless right.placeless
  | .logical _ op left right => .logical .start op left.placeless right.placeless
  | .call _ callee arguments => .call .start callee.placeless (Expr.allPlaceless arguments)
  | .index _ left index => .index .start left.placeless index.placeless

def Expr.allPlaceless : List Expr → List Expr
  | [] => []
  | e :: more => e.placeless :: Expr.allPlaceless more

def Expr.pairsPlaceless : List (Text × Expr) → List (Text × Expr)
  | [] => []
  | (key, e) :: more => (key, e.placeless) :: Expr.pairsPlaceless more

def Expr.optionPlaceless : Option Expr → Option Expr
  | none => none
  | some e => some e.placeless

def Stmt.placeless : Stmt → Stmt
  | .var _ name value => .var .start name (Expr.optionPlaceless value)
  | .function literal => .function literal.placeless
  | .expression _ value => .expression .start value.placeless
  | .returns _ value => .returns .start (Expr.optionPlaceless value)
  | .block _ body => .block .start (Stmt.allPlaceless body)
  | .ifElse _ condition consequence alternative =>
    .ifElse .start condition.placeless consequence.placeless (Stmt.optionPlaceless alternative)
  | .whileLoop _ condition body => .whileLoop .start condition.placeless body.placeless

def Stmt.allPlaceless : List Stmt → List Stmt
  | [] => []
  | s :: more => s.placeless :: Stmt.allPlaceless more

def Stmt.optionPlaceless : Option Stmt → Option Stmt
  | none => none
  | some s => some s.placeless

def FunctionLiteral.placeless : FunctionLiteral → FunctionLiteral
  | ⟨_, name, parameters, _, body⟩ => ⟨.start, name, parameters, .start, Stmt.allPlaceless body⟩

end

/-- The program with every place moved to the start of the source. -/
def Program.placeless (p : Program) : Program := ⟨.start, Stmt.allPlaceless p.statements⟩

mutual

/-- The values of the number literals, in the order of the source. -/
def Expr.numbers : Expr → List Float
  | .number _ value => [value]
  | .identifier _ _ | .string _ _ | .boolean _ _ | .null _ => []
  | .array _ elements => Expr.allNumbers elements
  | .object _ pairs => Expr.pairsNumbers pairs
  | .function literal => literal.numbers
  | .assign _ _ value => value.numbers
  | .unary _ _ operand => operand.numbers
  | .binary _ _ left right | .logical _ _ left right => left.numbers ++ right.numbers
  | .call _ callee arguments => callee.numbers ++ Expr.allNumbers arguments
  | .index _ left index => left.numbers ++ index.numbers

def Expr.allNumbers : List Expr → List Float
  | [] => []
  | e :: more => e.numbers ++ Expr.allNumbers more

def Expr.pairsNumbers : List (Text × Expr) → List Float
  | [] => []
  | (_, e) :: more => e.numbers ++ Expr.pairsNumbers more

def Expr.optionNumbers : Option Expr → List Float
  | none => []
  | some e => e.numbers

def Stmt.numbers : Stmt → List Float
  | .var _ _ value | .returns _ value => Expr.optionNumbers value
  | .function literal => literal.numbers
  | .expression _ value => value.numbers
  | .block _ body => Stmt.allNumbers body
  | .ifElse _ condition consequence alternative =>
    condition.numbers ++ consequence.numbers ++ Stmt.optionNumbers alternative
  | .whileLoop _ condition body => condition.numbers ++ body.numbers

def Stmt.allNumbers : List Stmt → List Float
  | [] => []
  | s :: more => s.numbers ++ Stmt.allNumbers more

def Stmt.optionNumbers : Option Stmt → List Float
  | none => []
  | some s => s.numbers

def FunctionLiteral.numbers : FunctionLiteral → List Float
  | ⟨_, _, _, _, body⟩ => Stmt.allNumbers body

end

def Program.numbers (p : Program) : List Float := Stmt.allNumbers p.statements

/-- An `else` behind the statement would become part of it. -/
def Stmt.endsOpen : Stmt → Bool
  | .ifElse _ _ _ none => true
  | .ifElse _ _ _ (some alternative) => alternative.endsOpen
  | .whileLoop _ _ body => body.endsOpen
  | _ => false

/-- The parts of a program that are read on their own. -/
inductive TreeNode where
  | expr (e : Expr)
  | stmt (s : Stmt)
  | function (literal : FunctionLiteral)

def TreeNode.numbers : TreeNode → List Float
  | expr e => e.numbers
  | stmt s => s.numbers
  | function literal => literal.numbers

/-- A tree that can be written so that it is read back. -/
inductive Written : TreeNode → Prop
  -- Expressions
  | identifier {location : Location} {name : Text} : IsName name → Written (.expr (.identifier location name))
  | number {location : Location} {value : Float} : Magnitude value → Written (.expr (.number location value))
  | string {location : Location} {value : Text} : Written (.expr (.string location value))
  | boolean {location : Location} {value : Bool} : Written (.expr (.boolean location value))
  | null {location : Location} : Written (.expr (.null location))
  | array {location : Location} {elements : List Expr} : (∀ e ∈ elements, Written (.expr e)) →
      Written (.expr (.array location elements))
  | object {location : Location} {pairs : List (Text × Expr)} : (∀ p ∈ pairs, Written (.expr p.2)) →
      Written (.expr (.object location pairs))
  | lambda {literal : FunctionLiteral} : Written (.function literal) → Written (.expr (.function literal))
  | assign {location : Location} {name : Text} {value : Expr} : IsName name → Written (.expr value) →
      Written (.expr (.assign location name value))
  | unary {location : Location} {op : UnaryOperator} {operand : Expr} : Written (.expr operand) →
      Written (.expr (.unary location op operand))
  | binary {location : Location} {op : BinaryOperator} {left right : Expr} : Written (.expr left) →
      Written (.expr right) → Written (.expr (.binary location op left right))
  | logical {location : Location} {op : LogicalOperator} {left right : Expr} : Written (.expr left) →
      Written (.expr right) → Written (.expr (.logical location op left right))
  | call {location : Location} {callee : Expr} {arguments : List Expr} : Written (.expr callee) →
      (∀ e ∈ arguments, Written (.expr e)) → Written (.expr (.call location callee arguments))
  | index {location : Location} {left index : Expr} : Written (.expr left) → Written (.expr index) →
      Written (.expr (.index location left index))
  -- Statements
  | var {location : Location} {name : Text} {value : Option Expr} : IsName name →
      (∀ e ∈ value, Written (.expr e)) → Written (.stmt (.var location name value))
  | declaration {literal : FunctionLiteral} : literal.name ≠ [] → Written (.function literal) →
      Written (.stmt (.function literal))
  | expression {location : Location} {value : Expr} : Written (.expr value) →
      Written (.stmt (.expression location value))
  | returns {location : Location} {value : Option Expr} : (∀ e ∈ value, Written (.expr e)) →
      Written (.stmt (.returns location value))
  | block {location : Location} {body : List Stmt} : (∀ s ∈ body, Written (.stmt s)) →
      Written (.stmt (.block location body))
  | ifOnly {location : Location} {condition : Expr} {consequence : Stmt} : Written (.expr condition) →
      Written (.stmt consequence) → Written (.stmt (.ifElse location condition consequence none))
  | ifElse {location : Location} {condition : Expr} {consequence alternative : Stmt} : Written (.expr condition) →
      Written (.stmt consequence) → consequence.endsOpen = false → Written (.stmt alternative) →
      Written (.stmt (.ifElse location condition consequence (some alternative)))
  | whileLoop {location : Location} {condition : Expr} {body : Stmt} : Written (.expr condition) →
      Written (.stmt body) → Written (.stmt (.whileLoop location condition body))
  -- Functions
  | function {location bodyLocation : Location} {name : Text} {parameters : List Text} {body : List Stmt} :
      (name ≠ [] → IsName name) → (∀ p ∈ parameters, IsName p) → (∀ s ∈ body, Written (.stmt s)) →
      Written (.function ⟨location, name, parameters, bodyLocation, body⟩)

end TinyScript
