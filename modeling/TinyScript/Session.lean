import TinyScript.Token.Source
import TinyScript.Program.Parser
import TinyScript.Store.Cycles
import TinyScript.Store.Liveness
import TinyScript.Evaluation

namespace TinyScript

/-- A session runs one program after the other over the same globals. -/
structure Session where
  store : Store
  globals : ScopeId
  /-- How many calls of closures may be active. -/
  callLimit : Nat
  /-- What the clock shows while a program runs. -/
  time : Float
  /-- The names under which programs have been run. -/
  filenames : List Text
  /-- The value that was worked out last. Until the next program runs it stays in use. -/
  latest : Value

/-- How a program ends. A program that does not read well is not run at all. -/
inductive Ending where
  | rejected (diagnostics : List Diagnostic)
  | failed (error : RuntimeError)
  | finished (value : Option Value)

namespace Ending

def diagnostics : Ending → List Diagnostic
  | rejected diagnostics => diagnostics
  | failed error => [error.diagnostic]
  | finished _ => []

def value? : Ending → Option Value
  | finished value => value
  | _ => none

def isRejected : Ending → Bool
  | rejected _ => true
  | _ => false

def isFailed : Ending → Bool
  | failed _ => true
  | _ => false

end Ending

/-- How a program ended, what it printed, and the session behind it. -/
structure Report where
  ending : Ending
  printed : Text
  session : Session

namespace Session

/-- The calls that may be active when nobody says otherwise. -/
def defaultCallLimit : Nat := 100000

/-- How many levels of evaluation the host has room for. -/
def hostRoom : Nat := 100000

/-- More steps than a host ever takes. -/
def allSteps : Nat := twoTo 62

/-- A scope with the builtins and the console object. -/
def newGlobals (s : Store) : ScopeId × Store :=
  let (globals, s) := s.newScope none
  let s := Builtin.globals.foldl (fun s which => s.define globals which.name (.builtin which)) s
  let (console, s) := s.newObject (.ofList [(Builtin.log.name, .builtin .log)])
  (globals, s.define globals "console" (.object console))

/-- A new session. Calls are bounded by the given limit, and by the host. -/
def start (callLimit : Nat) (time : Float) : Session :=
  let (globals, store) := newGlobals .empty
  ⟨store, globals, callLimit, time, [], .null⟩

/-- Runs a program, which may take some steps. -/
def interpret (steps : Nat) (s : Session) (p : Program) : Option Report :=
  let context : Context := ⟨s.globals, 0, s.callLimit, hostRoom, s.time⟩
  let report (ending : Ending) (state : State) : Report :=
    ⟨ending, state.printed.toList.flatten, { s with store := state.store, latest := state.latest }⟩
  match Evaluation.program steps context p ⟨s.store, #[], .null⟩ with
  | .done value state => some (report (.finished value) state)
  | .failed error state => some (report (.failed error) state)
  | .unfinished => none

/-- The program in a source, or what is wrong with it. A source that is not made of tokens is not read any
further. -/
def readProgram (source : Text) : Except (List Diagnostic) Program :=
  let read := Source.ofText source
  if read.diagnostics ≠ [] then .error read.diagnostics
  else
    let (program, errors) := Program.ofTokens read.tokens read.finish
    if errors ≠ [] then .error errors else .ok program

/-- Runs a source under a name. The name is put down first. When the source is rejected it is taken back, but only
if it was not there before. -/
def run (steps : Nat) (s : Session) (source filename : Text) : Option Report :=
  let named := { s with filenames := s.filenames.insert filename }
  match readProgram source with
  | .error diagnostics =>
    let left := if filename ∈ s.filenames then named else { named with filenames := named.filenames.erase filename }
    some ⟨.rejected diagnostics, [], left⟩
  | .ok program => interpret steps named program

/-- The value of a global name. -/
def get? (s : Session) (name : Text) : Option Value := s.store.lookup s.globals name

/-- A line for every global name. -/
def dump (s : Session) : Text := s.store.dump s.globals

def display (s : Session) (v : Value) : Text := s.store.display v

def inspect (s : Session) (v : Value) : Text := s.store.inspect v

/-- The store after a session has ended, when the caller goes on holding some values. Scopes of closures
forget their names first, which releases what only they refer to. Then the arrays that are still in use are
searched for cycles, the latest value being in use like those that are held. Last the globals are forgotten. -/
def teardown (s : Session) (held : List Value) : Store :=
  let store := s.store.captured.foldl Store.clearScope s.store
  let roots := Node.scope s.globals :: (s.latest :: held).filterMap Value.node?
  let store := store.breakCycles (store.createdInUse roots)
  store.clearScope s.globals

/-- Starts anew with fresh globals, when the caller goes on holding some values. -/
def reset (s : Session) (held : List Value) : Session :=
  let (globals, store) := newGlobals { s.teardown held with created := #[], captured := #[] }
  { s with store, globals, latest := .null }

end Session

end TinyScript
