import TinyScript.Text

namespace TinyScript.Quoted

def backslash : Byte := ascii '\\'

/-- The escapes: the byte behind the backslash, and the byte that is meant. Writing and reading share this table. -/
def escapes : List (Byte × Byte) :=
  [(ascii 'n', newline), (ascii 't', ascii '\t'), (ascii 'r', ascii '\r'), (ascii '"', ascii '"'),
    (backslash, backslash)]

/-- The byte behind the backslash for a byte that cannot stand for itself. -/
def letter? (meant : Byte) : Option Byte := (escapes.find? (·.2 = meant)).map (·.1)

/-- The byte that an escape means. -/
def meaning? (letter : Byte) : Option Byte := (escapes.find? (·.1 = letter)).map (·.2)

/-- Text as it stands between quotes. -/
def escape (t : Text) : Text :=
  t.flatMap fun b => match letter? b with
    | some letter => [backslash, letter]
    | none => [b]

/-- Text with quotes around it. -/
def write (t : Text) : Text := (escape t).quote

end TinyScript.Quoted
