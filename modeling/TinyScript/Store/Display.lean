import TinyScript.Store.Graph
import TinyScript.Quoted
import TinyScript.Number.Display

namespace TinyScript

namespace Store

/-- The name of a function, in brackets. -/
def functionText (s : Store) (id : ClosureId) : Text :=
  match s.closures[id]?.map (·.literal.name) with
  | none | some [] => "<fn>"
  | some name => "<fn " ++ name ++ ">"

/-- The text of a value below some ancestors. An aggregate among its own ancestors is not followed in circles, only a
mark is written for it. The depth that is left is never used up, because ancestors are different from each other. -/
def text (s : Store) (quoted : Bool) : Nat → List Node → Value → Text
  | _, _, .null => "null"
  | _, _, .boolean value => if value then "true" else "false"
  | _, _, .number value => numberText value
  | _, _, .string value => if quoted then Quoted.write value.text else value.text
  | _, _, .closure id => s.functionText id
  | _, _, .builtin which => "<native fn " ++ which.name ++ ">"
  | 0, _, .array _ => "[...]"
  | 0, _, .object _ => "\x7b...\x7d"
  | depth + 1, ancestors, .array id =>
    if Node.array id ∈ ancestors then "[...]"
    else
      let texts := (s.elements id).toList.map (text s true depth (.array id :: ancestors))
      "[" ++ Text.join ", " texts ++ "]"
  | depth + 1, ancestors, .object id =>
    if Node.object id ∈ ancestors then "\x7b...\x7d"
    else
      let texts := (s.entries id).entries.map fun entry =>
        entry.1 ++ ": " ++ text s true depth (.object id :: ancestors) entry.2
      "\x7b" ++ Text.join ", " texts ++ "\x7d"

/-- The text that is printed for a value: texts as they are, but quoted inside of aggregates. -/
def display (s : Store) (v : Value) : Text := s.text false (s.aggregateCount + 1) [] v

/-- The text that is printed, packed. -/
def packed (s : Store) : Value → Packed
  | .string value => value
  | v => (s.display v).packed

/-- The text that shows what a value is: texts are quoted. -/
def inspect (s : Store) (v : Value) : Text := s.text true (s.aggregateCount + 1) [] v

/-- A line for every name that a scope binds itself. -/
def dump (s : Store) (id : ScopeId) : Text :=
  (s.bindings id).entries.flatMap fun entry => "[" ++ entry.1 ++ "] = " ++ s.inspect entry.2 ++ [newline]

end Store

end TinyScript
