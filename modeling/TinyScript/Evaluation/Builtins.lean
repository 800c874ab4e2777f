import TinyScript.Evaluation.Run

namespace TinyScript.Builtin

/-- A builtin applied to as many arguments as it takes. -/
def body (which : Builtin) (time : Float) (line : Nat) (arguments : List Value) : Run Value :=
  match which, arguments with
  | print, values | log, values => do
    let texts ← .reading fun s => values.map s.display
    .print (Text.join " " texts ++ [newline])
    pure .null
  | len, [.string t] => pure (.number (Exact.ofNat t.size))
  | len, [.array id] => .reading fun s => .number (Exact.ofNat (s.elements id).size)
  | len, [.object id] => .reading fun s => .number (Exact.ofNat (s.entries id).size)
  | first, [.string t] => pure ((t.get? 0).elim .null fun b => .string (.singleton b))
  | first, [.array id] => .reading fun s => (s.elements id)[0]?.getD .null
  | last, [.string t] => pure ((t.get? (t.size - 1)).elim .null fun b => .string (.singleton b))
  | last, [.array id] => .reading fun s => (s.elements id).back?.getD .null
  | rest, [.string t] => pure (if t.size = 0 then .null else .string t.tail)
  | rest, [.array id] => do
    let elements ← .reading (·.elements id)
    if elements.isEmpty then pure .null
    else return .array (← .creating (·.newArray (elements.extract 1 elements.size)))
  | push, [.array id, value] => do
    .changing (·.append id value)
    pure (.array id)
  | type, [v] => pure (.string v.kind.name.packed)
  | str, [v] => .reading fun s => .string (s.packed v)
  | clock, _ => pure (.number time)
  | which, v :: _ => .fail line (.argument which v.kind)
  | _, [] => pure .null

/-- A builtin applied to any arguments. -/
def apply (which : Builtin) (time : Float) (line : Nat) (arguments : List Value) : Run Value :=
  match which.arity? with
  | none => which.body time line arguments
  | some expected =>
    if arguments.length = expected then which.body time line arguments
    else .fail line (.argumentCount expected arguments.length)

end TinyScript.Builtin
