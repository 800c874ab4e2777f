import TinyScript.Text

namespace TinyScript

/-- A place in a source text. Lines and columns count from one, and a column is one byte. -/
structure Location where
  line : Nat
  column : Nat
  deriving DecidableEq

namespace Location

def start : Location := ⟨1, 1⟩

/-- The place behind one byte. -/
def next (here : Location) (b : Byte) : Location :=
  if b = newline then ⟨here.line + 1, 1⟩ else ⟨here.line, here.column + 1⟩

/-- The place behind a text. -/
def after (here : Location) (t : Text) : Location := t.foldl next here

/-- A place in a named source. -/
def text (filename : Text) (here : Location) : Text :=
  filename ++ ":" ++ Text.ofNat here.line ++ ":" ++ Text.ofNat here.column

end Location

end TinyScript
