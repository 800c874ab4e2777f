import TinyScript.Token

namespace TinyScript

inductive UnaryOperator where
  | negate
  | not
  deriving DecidableEq

inductive BinaryOperator where
  | add | subtract | multiply | divide | remainder
  | equal | notEqual | less | greater | lessEqual | greaterEqual
  deriving DecidableEq

/-- Operators that may leave their right side alone. -/
inductive LogicalOperator where
  | and
  | or
  deriving DecidableEq

def UnaryOperator.symbol : UnaryOperator → Text
  | negate => "-"
  | not => "!"

def BinaryOperator.symbol : BinaryOperator → Text
  | add => "+"
  | subtract => "-"
  | multiply => "*"
  | divide => "/"
  | remainder => "%"
  | equal => "=="
  | notEqual => "!="
  | less => "<"
  | greater => ">"
  | lessEqual => "<="
  | greaterEqual => ">="

def LogicalOperator.symbol : LogicalOperator → Text
  | and => "&&"
  | or => "||"

mutual

/-- Every node of a syntax tree has the place of the token that stands for it. -/
inductive Expr where
  | identifier (location : Location) (name : Text)
  | number (location : Location) (value : Float)
  | string (location : Location) (value : Text)
  | boolean (location : Location) (value : Bool)
  | null (location : Location)
  | array (location : Location) (elements : List Expr)
  /-- Keys stand in source order and may be repeated. -/
  | object (location : Location) (pairs : List (Text × Expr))
  | function (literal : FunctionLiteral)
  | assign (location : Location) (name : Text) (value : Expr)
  | unary (location : Location) (op : UnaryOperator) (operand : Expr)
  | binary (location : Location) (op : BinaryOperator) (left right : Expr)
  | logical (location : Location) (op : LogicalOperator) (left right : Expr)
  | call (location : Location) (callee : Expr) (arguments : List Expr)
  | index (location : Location) (left index : Expr)

inductive Stmt where
  | var (location : Location) (name : Text) (value : Option Expr)
  | function (literal : FunctionLiteral)
  | expression (location : Location) (value : Expr)
  | returns (location : Location) (value : Option Expr)
  | block (location : Location) (body : List Stmt)
  | ifElse (location : Location) (condition : Expr) (consequence : Stmt) (alternative : Option Stmt)
  | whileLoop (location : Location) (condition : Expr) (body : Stmt)

/-- A function as it is written. A function without a name has the empty name. -/
structure FunctionLiteral where
  location : Location
  name : Text
  parameters : List Text
  bodyLocation : Location
  body : List Stmt

end

namespace Expr

def location : Expr → Location
  | identifier location _ | number location _ | string location _ | boolean location _ | null location
  | array location _ | object location _ | assign location _ _ | unary location _ _ | binary location _ _ _
  | logical location _ _ _ | call location _ _ | index location _ _ => location
  | function literal => literal.location

end Expr

namespace Stmt

def location : Stmt → Location
  | var location _ _ | expression location _ | returns location _ | block location _
  | ifElse location _ _ _ | whileLoop location _ _ => location
  | function literal => literal.location

/-- A loop that runs `initializer` once and `increment` after each round, written with the other statements.
The body keeps a scope of its own, so the increment does not see its variables. -/
def forLoop (location : Location) (initializer : Option Stmt) (condition increment : Option Expr)
    (body : Stmt) : Stmt :=
  let round := match increment with
    | some step => block body.location [body, expression step.location step]
    | none => body
  let loop := whileLoop location (condition.getD (.boolean location true)) round
  match initializer with
  | some first => block location [first, loop]
  | none => loop

end Stmt

structure Program where
  location : Location
  statements : List Stmt

end TinyScript
