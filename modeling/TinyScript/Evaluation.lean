import TinyScript.Evaluation.Operators
import TinyScript.Evaluation.Builtins

namespace TinyScript

/-- Where a part of a program runs. -/
structure Context where
  scope : ScopeId
  /-- How many calls of closures are active. -/
  depth : Nat
  /-- How many calls of closures may be active. -/
  limit : Nat
  /-- How many levels further in the host can go. Only calls are refused when there are none left. -/
  room : Nat
  /-- What the clock shows while a program runs. -/
  time : Float

namespace Context

/-- One level further in. -/
def inside (c : Context) : Context := { c with room := c.room - 1 }

/-- There is no place for another call. -/
def isFull (c : Context) : Bool := c.limit ≤ c.depth || c.room = 0

/-- The levels that a call takes besides those of the body. -/
def callRoom : Nat := 4

/-- Where the body of a called closure runs. -/
def called (c : Context) (locals : ScopeId) : Context :=
  { c with scope := locals, depth := c.depth + 1, room := c.room - callRoom }

end Context

/-- How a statement ends. Only an expression statement has a value. -/
inductive Completion where
  | normal (value : Option Value)
  | returned (value : Value)

namespace Evaluation

/-- Binds parameters to arguments, in order. -/
def bindParameters (scope : ScopeId) (parameters : List Text) (arguments : List Value) (s : Store) : Store :=
  (parameters.zip arguments).foldl (fun s pair => s.define scope pair.1 pair.2) s

/-- The value of a variable. -/
def variableValue (context : Context) (line : Nat) (name : Text) : Run Value := do
  match ← .reading (·.lookup context.scope name) with
  | some value => pure value
  | none => .fail line (.undefinedVariable name)

/-- Gives a variable a new value where it is bound. -/
def assignVariable (context : Context) (line : Nat) (name : Text) (value : Value) : Run Unit := do
  match ← .reading (·.binder? context.scope name) with
  | some scope => .changing (·.define scope name value)
  | none => .fail line (.undefinedVariable name)

/-- A closure of the current scope. A named function expression sees its own name in a scope that nothing else
sees. -/
def functionValue (context : Context) (literal : FunctionLiteral) : Run Value := do
  if literal.name = [] then return .closure (← .creating (·.newClosure literal context.scope))
  else
    let own ← .creating (·.newScope (some context.scope))
    let closure ← .creating (·.newClosure literal own)
    .changing (·.define own literal.name (.closure closure))
    return .closure closure

/-- The end of a statement whose result is dropped. -/
def withoutValue : Run Completion := do
  .keep .null
  pure (.normal none)

mutual

/-- Evaluates an expression. The context is handed down, so its scope, its depth and its room are what they were when a
part has ended, however it has ended. Each definition here takes a number of steps that it may go down, and is
unfinished when they are used up. -/
def eval : Nat → Context → Expr → Run Value
  | 0, _, _ => .unfinished
  | n + 1, outer, e => .keeping <|
    let context := outer.inside
    match e with
    | .identifier location name => variableValue context location.line name
    | .number _ value => pure (.number value)
    | .string _ value => pure (.string value.packed)
    | .boolean _ value => pure (.boolean value)
    | .null _ => pure .null
    | .array _ elements => do
      let values ← evalAll n context [] elements
      return .array (← .creating (·.newArray values.toArray))
    | .object _ pairs => do
      let entries ← evalPairs n context [] pairs
      return .object (← .creating (·.newObject (.ofList entries)))
    | .function literal => functionValue context literal
    | .assign location name value => do
      let value ← eval n context value
      assignVariable context location.line name value
      pure value
    | .unary location op operand => do
      let operand ← eval n context operand
      op.apply location.line operand
    | .binary location op left right => do
      let left ← eval n context left
      let right ← eval n context right
      op.apply location.line left right
    | .logical _ op left right => do
      let left ← eval n context left
      if op.settles left then pure left else eval n context right
    | .call location callee arguments => do
      let callee ← eval n context callee
      let arguments ← evalAll n context [] arguments
      apply n context location.line callee arguments
    | .index location left index => do
      let left ← eval n context left
      let index ← eval n context index
      left.at location.line index

/-- Evaluates expressions from left to right, behind values that are there already in reverse order. -/
def evalAll : Nat → Context → List Value → List Expr → Run (List Value)
  | 0, _, _, _ => .unfinished
  | _ + 1, _, values, [] => pure values.reverse
  | n + 1, context, values, e :: more => do
    let value ← eval n context e
    evalAll n context (value :: values) more

/-- Evaluates the values of pairs from left to right, behind entries that are there already in reverse order. -/
def evalPairs : Nat → Context → List (Text × Value) → List (Text × Expr) → Run (List (Text × Value))
  | 0, _, _, _ => .unfinished
  | _ + 1, _, entries, [] => pure entries.reverse
  | n + 1, context, entries, (key, e) :: more => do
    let value ← eval n context e
    evalPairs n context ((key, value) :: entries) more

/-- Calls a value. A closure runs in a new scope inside the scope in which it was made. -/
def apply : Nat → Context → Nat → Value → List Value → Run Value
  | 0, _, _, _, _ => .unfinished
  | n + 1, context, line, callee, arguments =>
    match callee with
    | .builtin which => which.apply context.time line arguments
    | .closure id => do
      match ← .reading (·.closures[id]?) with
      | none => .fail line (.notCallable .function)
      | some ⟨literal, scope⟩ =>
        let expected := literal.parameters.length
        if arguments.length ≠ expected then .fail line (.argumentCount expected arguments.length)
        else if context.isFull then .fail line .stackOverflow
        else
          let locals ← .creating (·.newScope (some scope))
          .changing (bindParameters locals literal.parameters arguments)
          match ← execAll n (context.called locals) none literal.body with
          | .returned value => pure value
          | .normal _ => pure .null
    | other => .fail line (.notCallable other.kind)

def exec : Nat → Context → Stmt → Run Completion
  | 0, _, _ => .unfinished
  | n + 1, outer, s =>
    let context := outer.inside
    match s with
    | .var _ name none => do
      .changing (·.define context.scope name .null)
      withoutValue
    | .var _ name (some e) => do
      let value ← eval n context e
      .changing (·.define context.scope name value)
      withoutValue
    | .function literal => do
      let closure ← .creating (·.newClosure literal context.scope)
      .changing (·.define context.scope literal.name (.closure closure))
      withoutValue
    | .expression _ e => return .normal (some (← eval n context e))
    | .returns _ none => do
      .keep .null
      pure (.returned .null)
    | .returns _ (some e) => return .returned (← eval n context e)
    | .block _ body => do
      let inner ← .creating (·.newScope (some context.scope))
      match ← execAll n { context with scope := inner } none body with
      | .returned value => pure (.returned value)
      | .normal _ => pure (.normal none)
    | .ifElse _ condition consequence alternative => do
      let chosen := if (← eval n context condition).truthy then some consequence else alternative
      match chosen with
      | none => withoutValue
      | some chosen =>
        match ← exec n context chosen with
        | .returned value => pure (.returned value)
        | .normal _ => withoutValue
    | .whileLoop _ condition body => loop n context condition body

/-- Executes statements in order until one returns. They have the value of the last one. -/
def execAll : Nat → Context → Option Value → List Stmt → Run Completion
  | 0, _, _, _ => .unfinished
  | _ + 1, _, last, [] => pure (.normal last)
  | n + 1, context, _, s :: more => do
    match ← exec n context s with
    | .returned value => pure (.returned value)
    | .normal value => execAll n context value more

/-- Executes a body as long as a condition holds. -/
def loop : Nat → Context → Expr → Stmt → Run Completion
  | 0, _, _, _ => .unfinished
  | n + 1, context, condition, body => do
    if (← eval n context condition).truthy then
      match ← exec n context body with
      | .returned value => pure (.returned value)
      | .normal _ => loop n context condition body
    else withoutValue

end

/-- The value of a program: what it returns, or else the value of its last statement. -/
def program (n : Nat) (context : Context) (p : Program) : Run (Option Value) := do
  match ← execAll n context none p.statements with
  | .returned value => pure (some value)
  | .normal value => pure value

end Evaluation

end TinyScript
