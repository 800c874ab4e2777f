import TinyScript.Evaluation.Run

namespace TinyScript

/-- An operator between two numbers. -/
def BinaryOperator.onNumbers (op : BinaryOperator) (a b : Float) : Value :=
  match op with
  | add => .number (a + b)
  | subtract => .number (a - b)
  | multiply => .number (a * b)
  | divide => .number (a / b)
  | remainder => .number (Exact.remainder a b)
  | equal => .boolean (a == b)
  | notEqual => .boolean (a != b)
  | less => .boolean (a < b)
  | greater => .boolean (b < a)
  | lessEqual => .boolean (a ≤ b)
  | greaterEqual => .boolean (b ≤ a)

/-- An operator between two values. Anything can be compared for equality, a sum with a text in it joins
texts, and all else needs numbers. -/
def BinaryOperator.apply (op : BinaryOperator) (line : Nat) (left right : Value) : Run Value :=
  match op, left, right with
  | equal, a, b => pure (.boolean (a.equals b))
  | notEqual, a, b => pure (.boolean !(a.equals b))
  | op, .number a, .number b => pure (op.onNumbers a b)
  | add, .string a, b => return .string (a ++ (← .reading (·.packed b)))
  | add, a, .string b => return .string ((← .reading (·.packed a)) ++ b)
  | op, a, b => .fail line (.operands op a.kind b.kind)

def UnaryOperator.apply (op : UnaryOperator) (line : Nat) (operand : Value) : Run Value :=
  match op, operand with
  | not, a => pure (.boolean !a.truthy)
  | negate, .number a => pure (.number (-a))
  | negate, a => .fail line (.operand a.kind)

/-- Whether the left side of an operator is its value already. -/
def LogicalOperator.settles (op : LogicalOperator) (left : Value) : Bool :=
  match op with
  | or => left.truthy
  | and => !left.truthy

/-- The place that a value names in a sequence. Only natural numbers name places. -/
def Value.position? : Value → Option Nat
  | number value => Exact.toNat? value
  | _ => none

/-- The entry of a value at an index. Outside of a sequence, and for a key that is not there, this is null. -/
def Value.at (line : Nat) (left index : Value) : Run Value :=
  match left, index with
  | array id, i => .reading fun s => (i.position?.bind fun k => (s.elements id)[k]?).getD .null
  | string t, i => pure ((i.position?.bind t.get?).elim .null fun b => .string (.singleton b))
  | object id, .string key => .reading fun s => ((s.entries id).get? key.text).getD .null
  | object _, i => .fail line (.objectKey i.kind)
  | v, _ => .fail line (.notIndexable v.kind)

end TinyScript
