import TinyScript.Repl

namespace TinyScript.CommandLine

structure Settings where
  help : Bool
  debug : Bool
  callLimit : Nat
  script : Option Text
  deriving DecidableEq

def Settings.default : Settings := ⟨false, false, Session.defaultCallLimit, none⟩

inductive UsageError where
  | invalidOption (argument : Text)
  | missingDepth
  /-- The depth is no number that fits a machine word. -/
  | depthNotNumber (argument : Text)
  /-- The depth is zero, or something stands behind the number. -/
  | depthNotPositive (argument : Text)
  | secondScript (argument : Text)
  deriving DecidableEq

def UsageError.message : UsageError → Text
  | invalidOption argument => "invalid option " ++ argument
  | missingDepth => "option -s requires an argument"
  | depthNotNumber argument => "invalid call depth " ++ argument ++ ": stoul"
  | depthNotPositive argument => "invalid call depth " ++ argument
  | secondScript argument => "unexpected argument " ++ argument ++ ", already have a script"

/-- Machine words are numbers below this one. -/
def wordBound : Nat := twoTo 64

/-- A depth as it is written: blanks and a sign may stand before the digits. -/
structure DepthText where
  negative : Bool
  digits : Text
  /-- What stands behind the digits. -/
  tail : Text

def DepthText.ofText (t : Text) : DepthText :=
  let t := t.dropWhile Repl.isPadding
  let sign := (t.take 1).filter fun b => b = ascii '-' || b = ascii '+'
  let t := t.drop sign.length
  ⟨sign = [ascii '-'], t.takeWhile isDigit, t.dropWhile isDigit⟩

/-- The depth that an argument asks for. A negative number wraps around as machine words do. -/
def readDepth (argument : Text) : Except UsageError Nat :=
  let written := DepthText.ofText argument
  let size := written.digits.digitsValue
  if written.digits = [] ∨ wordBound ≤ size then .error (.depthNotNumber argument)
  else
    let depth := if written.negative then (wordBound - size) % wordBound else size
    if written.tail ≠ [] ∨ depth = 0 then .error (.depthNotPositive argument) else .ok depth

/-- What an argument is when it is not the value of an option. -/
inductive Argument where
  | help
  | debug
  | depth
  | unknown
  | script
  deriving DecidableEq

/-- A lone dash is the name of a script. -/
def Argument.ofText (argument : Text) : Argument :=
  if argument.length ≤ 1 ∨ argument.head? ≠ some (ascii '-') then script
  else if argument = "-h" then help
  else if argument = "-d" then debug
  else if argument = "-s" then depth
  else unknown

/-- Reads arguments from left to right. The first one that does not fit decides. -/
def readArguments (settings : Settings) : List Text → Except UsageError Settings
  | [] => .ok settings
  | argument :: more =>
    match Argument.ofText argument with
    | .help => readArguments { settings with help := true } more
    | .debug => readArguments { settings with debug := true } more
    | .depth =>
      match more with
      | [] => .error .missingDepth
      | depth :: more =>
        match readDepth depth with
        | .ok callLimit => readArguments { settings with callLimit } more
        | .error e => .error e
    | .unknown => .error (.invalidOption argument)
    | .script =>
      match settings.script with
      | some _ => .error (.secondScript argument)
      | none => readArguments { settings with script := if argument = [] then none else some argument } more

/-- How a process ends, and what it has written. -/
structure Exit where
  code : Nat
  output : Text
  errors : Text
  deriving DecidableEq

def usage (program : Text) : Text :=
  "Usage: " ++ program ++ " [-d] [-h] [-s <depth>] [<file>]\n\n" ++
    "  -d          dump the global environment after each run\n" ++
    "  -h          show this help\n" ++
    "  -s <depth>  maximum call depth (default " ++ Text.ofNat Session.defaultCallLimit ++ ")\n"

def Exit.help (program : Text) : Exit := ⟨0, usage program, []⟩

def Exit.misuse (program : Text) (e : UsageError) : Exit :=
  ⟨64, usage program, "Error: " ++ e.message ++ [newline]⟩

/-- Why a script could not be read. -/
inductive ReadError where
  | notFound
  | broken (reason : Text)
  deriving DecidableEq

def Exit.unreadable (script : Text) : ReadError → Exit
  | .notFound => ⟨1, [], "Error reading file: could not open " ++ script ++ [newline]⟩
  | .broken reason => ⟨1, [], "Caught an exception: " ++ reason ++ [newline]⟩

/-- Rejected programs and failed programs have exit codes of their own. -/
def exitCode : Ending → Nat
  | .rejected _ => 65
  | .failed _ => 70
  | .finished _ => 0

/-- Runs the contents of a script in a session of its own. -/
def runScript (steps : Nat) (time : Float) (settings : Settings) (script contents : Text) : Option Exit :=
  let session := Session.start settings.callLimit time
  (session.run steps contents script).map fun report =>
    ⟨exitCode report.ending, report.printed ++ (if settings.debug then report.session.dump else []),
      Repl.diagnosticLines report.ending.diagnostics⟩

/-- What is written before the first prompt. -/
def banner : Text := "minijs REPL\nType \"exit\" or \"quit\" to exit\n"

section

variable {m : Type → Type} [Monad m] (terminal : Terminal m)

def finish (exit : Exit) : m Nat := do
  terminal.write exit.output
  terminal.complain exit.errors
  pure exit.code

/-- What the program does with its arguments, when `read` gives the contents of files and `lines` are those of the
standard input. Without a script the interactive loop reads them. It yields the exit code. -/
def process {Lines : Type} [ForIn m Lines Text] (steps : Nat) (time : Float) (program : Text) (arguments : List Text)
    (read : Text → m (Except ReadError Text)) (lines : Lines) : m Nat :=
  match readArguments .default arguments with
  | .error e => finish terminal (.misuse program e)
  | .ok settings =>
    if settings.help then finish terminal (.help program)
    else match settings.script with
      | none => do
        terminal.write banner
        let _ ← Repl.converse terminal steps settings.debug (Session.start settings.callLimit time) lines
        pure 0
      | some script => do
        match ← read script with
        | .error e => finish terminal (.unreadable script e)
        | .ok contents => finish terminal (← terminal.await (runScript steps time settings script contents))

end

/-- The program with files and an input that are known. -/
def run (steps : Nat) (time : Float) (program : Text) (arguments : List Text)
    (read : Text → Except ReadError Text) (input : Text) : Option Exit :=
  let process := process .keeping steps time program arguments (fun script => pure (read script)) input.lines
  (process.run ⟨[], []⟩).map fun (code, written) => ⟨code, written.output, written.errors⟩

end TinyScript.CommandLine
