import TinyScript.Evaluation

namespace TinyScript

open Evaluation

/-- What a program yields when it ends behind this statement. -/
def Stmt.value? : Stmt → State → Option Value
  | .expression _ _, st => some st.latest
  | _, _ => none

/-- What an evaluator with registers sets while it runs, and puts back. The scope and the depth of calls are not handed
down to it as in a context, and a return is a flag, so it matters what a failure leaves here. -/
structure Registers where
  scope : ScopeId
  depth : Nat
  /-- A return waits for the call or the program that it ends. -/
  returning : Bool
  state : State

/-- What the host has for one level of evaluation. -/
structure Host where
  limit : Nat
  room : Nat
  time : Float

namespace Host

def inside (h : Host) : Host := { h with room := h.room - 1 }

def called (h : Host) : Host := { h with room := h.room - Context.callRoom }

/-- Where a part of a program runs, by the registers. -/
def context (h : Host) (scope : ScopeId) (depth : Nat) : Context := ⟨scope, depth, h.limit, h.room, h.time⟩

end Host

/-- How a visit ends, and what it leaves in the registers. -/
inductive Exit (α : Type) where
  | done (value : α) (regs : Registers)
  | failed (error : RuntimeError) (regs : Registers)
  | unfinished

namespace Exit

variable {α β : Type}

def bind : Exit α → (α → Registers → Exit β) → Exit β
  | done a regs, f => f a regs
  | failed error regs, _ => failed error regs
  | unfinished, _ => unfinished

/-- How the visit has ended, without what is only in registers. -/
def outcome : Exit α → Outcome α
  | done a regs => .done a regs.state
  | failed error regs => .failed error regs.state
  | unfinished => .unfinished

def registers? : Exit α → Option Registers
  | done _ regs | failed _ regs => some regs
  | unfinished => none

/-- However the visit has ended, the scope and the depth of calls are the ones from before. -/
def Restores (before : Registers) (exit : Exit α) : Prop :=
  ∀ after, exit.registers? = some after → after.scope = before.scope ∧ after.depth = before.depth

/-- Changes the registers on the way out, also on the way out of a failure. -/
def leaving (f : Registers → Registers) : Exit α → Exit α
  | done a regs => done a (f regs)
  | failed error regs => failed error (f regs)
  | unfinished => unfinished

/-- The exit of something that knows no registers but the state. -/
def ofOutcome (regs : Registers) : Outcome α → Exit α
  | .done a st => done a { regs with state := st }
  | .failed error st => failed error { regs with state := st }
  | .unfinished => unfinished

end Exit

/-- A visit reads the registers and sets them. -/
def Visit (α : Type) : Type := Registers → Exit α

namespace Visit

variable {α : Type}

instance : Monad Visit where
  pure a := fun regs => .done a regs
  bind x f := fun regs => (x regs).bind f

def unfinished : Visit α := fun _ => .unfinished

def registers : Visit Registers := fun regs => .done regs regs

/-- Something that only works on the state. -/
def own (x : Run α) : Visit α := fun regs => .ofOutcome regs (x regs.state)

/-- Something that needs to know where it runs. -/
def here (host : Host) (f : Context → Run α) : Visit α := fun regs =>
  own (f (host.context regs.scope regs.depth)) regs

def setReturning (returning : Bool) : Visit Unit := fun regs => .done () { regs with returning }

/-- Runs in another scope. On the way out the scope is the one from before. -/
def entering (inner : ScopeId) (x : Visit α) : Visit α := fun regs =>
  (x { regs with scope := inner }).leaving fun after => { after with scope := regs.scope }

/-- Runs with one more call that is active. On the way out it is one less. -/
def calling (x : Visit α) : Visit α := fun regs =>
  (x { regs with depth := regs.depth + 1 }).leaving fun after => { after with depth := after.depth - 1 }

/-- Goes on unless a return waits. -/
def unlessReturning (x : Visit Unit) : Visit Unit := do
  if (← registers).returning then pure () else x

/-- A return that waits is taken, and its value stays the latest one. Without a return the value is null. -/
def takeReturn : Visit Unit := do
  if (← registers).returning then setReturning false else own (.keep .null)

/-- What has been worked out is read off the registers. -/
def valueOf (x : Visit Unit) : Visit Value := do
  x
  return (← registers).state.latest

/-- What a statement has ended in is read off the registers. -/
def completionOf (s : Stmt) (x : Visit Unit) : Visit Completion := do
  x
  let regs ← registers
  return if regs.returning then .returned regs.state.latest else .normal (s.value? regs.state)

mutual

/-- The value of an expression becomes the latest value. -/
def expr : Nat → Host → Expr → Visit Unit
  | 0, _, _ => unfinished
  | n + 1, outer, e =>
    let host := outer.inside
    match e with
    | .identifier location name => do
      let value ← here host fun c => variableValue c location.line name
      own (.keep value)
    | .number _ value => own (.keep (.number value))
    | .string _ value => own (.keep (.string value.packed))
    | .boolean _ value => own (.keep (.boolean value))
    | .null _ => own (.keep .null)
    | .array _ elements => do
      let values ← exprs n host [] elements
      let id ← own (.creating (·.newArray values.toArray))
      own (.keep (.array id))
    | .object _ pairs => do
      let entries ← pairValues n host [] pairs
      let id ← own (.creating (·.newObject (.ofList entries)))
      own (.keep (.object id))
    | .function literal =>
      if literal.name = [] then do
        let closure ← here host fun c => .creating (·.newClosure literal c.scope)
        own (.keep (.closure closure))
      else do
        let inner ← here host fun c => .creating (·.newScope (some c.scope))
        entering inner do
          let closure ← here host fun c => .creating (·.newClosure literal c.scope)
          own (.keep (.closure closure))
          own (.changing (·.define inner literal.name (.closure closure)))
    | .assign location name value => do
      let value ← valueOf (expr n host value)
      here host fun c => assignVariable c location.line name value
      own (.keep value)
    | .unary location op operand => do
      let operand ← valueOf (expr n host operand)
      let value ← own (op.apply location.line operand)
      own (.keep value)
    | .binary location op left right => do
      let left ← valueOf (expr n host left)
      let right ← valueOf (expr n host right)
      let value ← own (op.apply location.line left right)
      own (.keep value)
    | .logical _ op left right => do
      let left ← valueOf (expr n host left)
      if op.settles left then own (.keep left)
      else do
        let value ← valueOf (expr n host right)
        own (.keep value)
    | .call location callee arguments => do
      let callee ← valueOf (expr n host callee)
      let arguments ← exprs n host [] arguments
      call n host location.line callee arguments
    | .index location left index => do
      let left ← valueOf (expr n host left)
      let index ← valueOf (expr n host index)
      let value ← own (left.at location.line index)
      own (.keep value)

def exprs : Nat → Host → List Value → List Expr → Visit (List Value)
  | 0, _, _, _ => unfinished
  | _ + 1, _, values, [] => pure values.reverse
  | n + 1, host, values, e :: more => do
    let value ← valueOf (expr n host e)
    exprs n host (value :: values) more

def pairValues : Nat → Host → List (Text × Value) → List (Text × Expr) → Visit (List (Text × Value))
  | 0, _, _, _ => unfinished
  | _ + 1, _, entries, [] => pure entries.reverse
  | n + 1, host, entries, (key, e) :: more => do
    let value ← valueOf (expr n host e)
    pairValues n host ((key, value) :: entries) more

/-- The value of a call becomes the latest value. -/
def call : Nat → Host → Nat → Value → List Value → Visit Unit
  | 0, _, _, _, _ => unfinished
  | n + 1, host, line, callee, arguments =>
    match callee with
    | .builtin which => do
      let value ← own (which.apply host.time line arguments)
      own (.keep value)
    | .closure id => do
      match ← own (.reading (·.closures[id]?)) with
      | none => own (.fail line (.notCallable .function))
      | some ⟨literal, scope⟩ =>
        let expected := literal.parameters.length
        if arguments.length ≠ expected then own (.fail line (.argumentCount expected arguments.length))
        else if ← here host fun c => pure c.isFull then own (.fail line .stackOverflow)
        else calling do
          let locals ← own (.creating (·.newScope (some scope)))
          own (.changing (bindParameters locals literal.parameters arguments))
          entering locals do
            stmts n host.called literal.body
            takeReturn
    | other => own (.fail line (.notCallable other.kind))

def stmt : Nat → Host → Stmt → Visit Unit
  | 0, _, _ => unfinished
  | n + 1, outer, s =>
    let host := outer.inside
    match s with
    | .var _ name none => do
      here host fun c => .changing (·.define c.scope name .null)
      own (.keep .null)
    | .var _ name (some e) => do
      let value ← valueOf (expr n host e)
      here host fun c => .changing (·.define c.scope name value)
      own (.keep .null)
    | .function literal => do
      let closure ← here host fun c => .creating (·.newClosure literal c.scope)
      here host fun c => .changing (·.define c.scope literal.name (.closure closure))
      own (.keep .null)
    | .expression _ e => expr n host e
    | .returns _ none => do
      own (.keep .null)
      setReturning true
    | .returns _ (some e) => do
      expr n host e
      setReturning true
    | .block _ body => do
      let inner ← here host fun c => .creating (·.newScope (some c.scope))
      entering inner (stmts n host body)
    | .ifElse _ condition consequence alternative => do
      let value ← valueOf (expr n host condition)
      match if value.truthy then some consequence else alternative with
      | none => pure ()
      | some chosen => stmt n host chosen
      unlessReturning (own (.keep .null))
    | .whileLoop _ condition body => repeated n host condition body

/-- Executes statements until a return waits. -/
def stmts : Nat → Host → List Stmt → Visit Unit
  | 0, _, _ => unfinished
  | _ + 1, _, [] => pure ()
  | n + 1, host, s :: more => do
    stmt n host s
    unlessReturning (stmts n host more)

def repeated : Nat → Host → Expr → Stmt → Visit Unit
  | 0, _, _, _ => unfinished
  | n + 1, host, condition, body => do
    let value ← valueOf (expr n host condition)
    if value.truthy then do
      stmt n host body
      unlessReturning (repeated n host condition body)
    else own (.keep .null)

end

/-- Executes the statements of a program until a return waits, which is taken. Otherwise the value is the latest one if
the last statement was an expression statement. -/
def program : Nat → Host → Option Value → List Stmt → Visit (Option Value)
  | 0, _, _, _ => unfinished
  | _ + 1, _, result, [] => pure result
  | n + 1, host, _, s :: more => do
    stmt n host s
    let regs ← registers
    if regs.returning then do
      setReturning false
      return some regs.state.latest
    else program n host (s.value? regs.state) more

end Visit

end TinyScript
