import TinyScript.Terminal

namespace TinyScript.Repl

def prompt : Text := "> "

def farewell : Text := "Goodbye!\n"

/-- What may stand around a command. -/
def isPadding (b : Byte) : Bool :=
  b = ascii ' ' || b = ascii '\t' || b = ascii '\r' || b = newline || b = 0x0B || b = 0x0C

/-- The line asks to leave. -/
def isExit (line : Text) : Bool :=
  let command := line.trim isPadding
  command = "exit" || command = "quit"

/-- Diagnostics, one on a line. -/
def diagnosticLines (diagnostics : List Diagnostic) : Text :=
  diagnostics.flatMap fun d => d.text ++ [newline]

/-- What the loop writes to the two outputs, and the session behind it. -/
structure Transcript where
  output : Text
  errors : Text
  session : Session

/-- A value is echoed unless there is none or it is null. -/
def echo (s : Session) : Option Value → Text
  | none | some .null => []
  | some value => s.inspect value ++ [newline]

/-- Programs that are typed in have no name of their own. -/
def filename : Text := "<stdin>"

section

variable {m : Type → Type} [Monad m] (terminal : Terminal m) (steps : Nat) (debug : Bool)

/-- Answers a line, and prompts for the next one. What the line prints comes first, then its value, then the globals if
`debug` asks for them. -/
def answer (line : Text) (s : Session) : m (ForInStep Session) := do
  if isExit line then pure (.done s)
  else
    let report ← terminal.await ((← terminal.setClock s).run steps line filename)
    terminal.write report.printed
    terminal.complain (diagnosticLines report.ending.diagnostics)
    terminal.write (echo report.session report.ending.value?)
    terminal.write (if debug then report.session.dump else [])
    terminal.write prompt
    pure (.yield report.session)

/-- The interactive loop answers one line after the other, until there are no more or one asks to leave. -/
def converse {Lines : Type} [ForIn m Lines Text] (s : Session) (lines : Lines) : m Session := do
  terminal.write prompt
  let last ← forIn lines s (answer terminal steps debug)
  terminal.write farewell
  pure last

end

/-- The loop on lines that are known. -/
def runLines (steps : Nat) (debug : Bool) (s : Session) (lines : List Text) : Option Transcript :=
  ((converse .keeping steps debug s lines).run ⟨[], []⟩).map fun (last, written) =>
    ⟨written.output, written.errors, last⟩

def run (steps : Nat) (debug : Bool) (s : Session) (input : Text) : Option Transcript :=
  runLines steps debug s input.lines

end TinyScript.Repl
