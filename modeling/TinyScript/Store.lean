import TinyScript.Program
import TinyScript.Table
import TinyScript.Value

namespace TinyScript

structure Closure where
  literal : FunctionLiteral
  /-- The scope in which the function was made. -/
  scope : ScopeId

structure Scope where
  bindings : Table Value
  outer : Option ScopeId

/-- The store holds what values share: arrays, objects, closures, and the scopes that bind names. Whatever is created
gets the next free place and keeps it. -/
structure Store where
  arrays : Array (Array Value)
  objects : Array (Table Value)
  closures : Array Closure
  scopes : Array Scope
  /-- The arrays created since the session began anew, the oldest first. -/
  created : Array ArrayId
  /-- The scopes in which closures were made since the session began anew. -/
  captured : Array ScopeId

namespace Store

def empty : Store := ⟨#[], #[], #[], #[], #[], #[]⟩

def elements (s : Store) (id : ArrayId) : Array Value := s.arrays[id]?.getD #[]

def entries (s : Store) (id : ObjectId) : Table Value := s.objects[id]?.getD .empty

/-- A new array. It is noted from the start, so arrays are noted in the order in which they are made. A reset passes
over those that are not in use any more (`createdInUse`), so it would make no difference to strike them off earlier,
while a program runs. Nor would it to note the array that a builtin makes only when the builtin has returned it, because
nothing else is made in between. -/
def newArray (s : Store) (elements : Array Value) : ArrayId × Store :=
  let id := s.arrays.size
  (id, { s with arrays := s.arrays.push elements, created := s.created.push id })

def newObject (s : Store) (entries : Table Value) : ObjectId × Store :=
  (s.objects.size, { s with objects := s.objects.push entries })

/-- A new closure. Its scope is captured. -/
def newClosure (s : Store) (literal : FunctionLiteral) (scope : ScopeId) : ClosureId × Store :=
  (s.closures.size, { s with closures := s.closures.push ⟨literal, scope⟩, captured := s.captured.push scope })

/-- Puts a value behind the elements of an array. -/
def append (s : Store) (id : ArrayId) (value : Value) : Store :=
  { s with arrays := s.arrays.modify id (·.push value) }

def clearArray (s : Store) (id : ArrayId) : Store := { s with arrays := s.arrays.modify id fun _ => #[] }

def clearObject (s : Store) (id : ObjectId) : Store := { s with objects := s.objects.modify id fun _ => .empty }

def newScope (s : Store) (outer : Option ScopeId) : ScopeId × Store :=
  (s.scopes.size, { s with scopes := s.scopes.push ⟨.empty, outer⟩ })

/-- The names that a scope binds itself. -/
def bindings (s : Store) (id : ScopeId) : Table Value := (s.scopes[id]?.map (·.bindings)).getD .empty

def outer? (s : Store) (id : ScopeId) : Option ScopeId := s.scopes[id]?.bind (·.outer)

/-- A scope and the scopes around it, from the inside out. A scope is made after the scopes around it, so the
way out leads to ever lower places and ends. -/
def chain (s : Store) (id : ScopeId) : List ScopeId :=
  id :: match s.outer? id with
    | some outer => if outer < id then chain s outer else []
    | none => []
termination_by id

/-- The innermost scope that binds a name. -/
def binder? (s : Store) (id : ScopeId) (name : Text) : Option ScopeId :=
  (s.chain id).find? fun scope => (s.bindings scope).contains name

/-- The value of a name, looked up from a scope outwards. -/
def lookup (s : Store) (id : ScopeId) (name : Text) : Option Value :=
  (s.chain id).findSome? fun scope => (s.bindings scope).get? name

/-- Binds a name in a scope, also if it was bound there before. -/
def define (s : Store) (id : ScopeId) (name : Text) (value : Value) : Store :=
  { s with scopes := s.scopes.modify id fun scope => { scope with bindings := scope.bindings.insert name value } }

/-- Gives a new value to a name where it is bound, if it is bound. -/
def assign? (s : Store) (id : ScopeId) (name : Text) (value : Value) : Option Store :=
  (s.binder? id name).map fun scope => s.define scope name value

/-- A scope forgets its names and keeps its place among the others. -/
def clearScope (s : Store) (id : ScopeId) : Store :=
  { s with scopes := s.scopes.modify id fun scope => { scope with bindings := .empty } }

end Store

end TinyScript
