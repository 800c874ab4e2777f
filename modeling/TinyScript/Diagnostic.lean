import TinyScript.Text

namespace TinyScript

namespace Diagnostic

/-- The stage that found a problem: cutting into tokens, building the tree, or running. -/
inductive Kind where
  | lexical
  | grammatical
  | runtime
  deriving DecidableEq

end Diagnostic

/-- The one shape in which problems are reported, whichever stage finds them. -/
structure Diagnostic where
  kind : Diagnostic.Kind
  line : Nat
  /-- What stands at the problem. It is empty when the message says it all. -/
  place : Text
  message : Text
  deriving DecidableEq

namespace Diagnostic

/-- Problems of a running program have no place in their text, only a line. -/
def text (d : Diagnostic) : Text :=
  let line := "[line " ++ Text.ofNat d.line ++ "] "
  match d.kind with
  | .runtime => line ++ "Runtime error: " ++ d.message
  | _ => line ++ "Error" ++ (if d.place = [] then [] else ascii ' ' :: d.place) ++ ": " ++ d.message

end Diagnostic

end TinyScript
