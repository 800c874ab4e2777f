import TinyScript.Program
import TinyScript.Quoted
import TinyScript.Number.Display

namespace TinyScript

/-- The parameters and the body of a function, behind its name. -/
def signature (name : Text) (parameters : List Text) (body : Text) : Text :=
  "function " ++ name ++ "(" ++ Text.join ", " parameters ++ ") " ++ body

/-- Statements between braces. -/
def braced (statements : List Text) : Text :=
  if statements = [] then "\x7b\x7d" else "\x7b " ++ Text.join " " statements ++ " \x7d"

def parenthesized (t : Text) : Text := "(" ++ t ++ ")"

mutual

/-- An expression as source. Everything that could be read in two ways is in parentheses, function and object literals
also because a statement that began with one would be read as a declaration or as a block. -/
def Expr.text : Expr → Text
  | .identifier _ name => name
  | .number _ value => numberText value
  | .string _ value => Quoted.write value
  | .boolean _ value => if value then "true" else "false"
  | .null _ => "null"
  | .array _ elements => "[" ++ Text.join ", " (Expr.texts elements) ++ "]"
  | .object _ pairs => "(\x7b" ++ Text.join ", " (Expr.pairTexts pairs) ++ "\x7d)"
  | .function literal => parenthesized literal.text
  | .assign _ name value => parenthesized (name ++ " = " ++ value.text)
  | .unary _ op operand => parenthesized (op.symbol ++ operand.text)
  | .binary _ op left right => parenthesized (left.text ++ " " ++ op.symbol ++ " " ++ right.text)
  | .logical _ op left right => parenthesized (left.text ++ " " ++ op.symbol ++ " " ++ right.text)
  | .call _ callee arguments => callee.text ++ parenthesized (Text.join ", " (Expr.texts arguments))
  | .index _ left index => parenthesized (left.text ++ "[" ++ index.text ++ "]")

def Expr.texts : List Expr → List Text
  | [] => []
  | e :: more => e.text :: Expr.texts more

def Expr.pairTexts : List (Text × Expr) → List Text
  | [] => []
  | (key, e) :: more => (Quoted.write key ++ ": " ++ e.text) :: Expr.pairTexts more

/-- A value behind a word, if there is one. -/
def Expr.optionText (before : Text) : Option Expr → Text
  | none => []
  | some e => before ++ e.text

def Stmt.text : Stmt → Text
  | .var _ name value => "var " ++ name ++ Expr.optionText " = " value ++ ";"
  | .function literal => literal.text
  | .expression _ value => value.text ++ ";"
  | .returns _ value => "return" ++ Expr.optionText " " value ++ ";"
  | .block _ body => braced (Stmt.texts body)
  | .ifElse _ condition consequence alternative =>
    "if (" ++ condition.text ++ ") " ++ consequence.text ++ Stmt.optionText " else " alternative
  | .whileLoop _ condition body => "while (" ++ condition.text ++ ") " ++ body.text

def Stmt.texts : List Stmt → List Text
  | [] => []
  | s :: more => s.text :: Stmt.texts more

def Stmt.optionText (before : Text) : Option Stmt → Text
  | none => []
  | some s => before ++ s.text

def FunctionLiteral.text : FunctionLiteral → Text
  | ⟨_, name, parameters, _, body⟩ => signature name parameters (braced (Stmt.texts body))

end

/-- Programs are written on one line. -/
def Program.text (p : Program) : Text := Text.join " " (Stmt.texts p.statements)

end TinyScript
