import TinyScript.Text.Packed

namespace TinyScript

abbrev ArrayId := Nat

abbrev ObjectId := Nat

abbrev ClosureId := Nat

abbrev ScopeId := Nat

/-- The functions that every session begins with. -/
inductive Builtin where
  | print | len | first | last | rest | push | type | str | clock
  /-- The function in the console object. -/
  | log
  deriving DecidableEq

namespace Builtin

def name : Builtin → Text
  | print => "print"
  | len => "len"
  | first => "first"
  | last => "last"
  | rest => "rest"
  | push => "push"
  | type => "type"
  | str => "str"
  | clock => "clock"
  | log => "log"

/-- How many arguments a builtin takes, unless it takes any number. -/
def arity? : Builtin → Option Nat
  | print | log => none
  | len | first | last | rest | type | str => some 1
  | push => some 2
  | clock => some 0

/-- The builtins with a global name of their own. -/
def globals : List Builtin := [print, len, first, last, rest, push, type, str, clock]

end Builtin

/-- Values of a running program. Numbers, texts and booleans are values in themselves. Arrays, objects and closures are
shared: their values say where in the store they are. -/
inductive Value where
  | null
  | boolean (value : Bool)
  | number (value : Float)
  | string (value : Packed)
  | closure (id : ClosureId)
  | builtin (which : Builtin)
  | array (id : ArrayId)
  | object (id : ObjectId)
  deriving DecidableEq

inductive Value.Kind where
  | null | boolean | number | string | function | array | object
  deriving DecidableEq

def Value.Kind.name : Value.Kind → Text
  | null => "null"
  | boolean => "boolean"
  | number => "number"
  | string => "string"
  | function => "function"
  | array => "array"
  | object => "object"

namespace Value

/-- Builtins and closures are functions alike. -/
def kind : Value → Kind
  | null => .null
  | boolean _ => .boolean
  | number _ => .number
  | string _ => .string
  | closure _ | builtin _ => .function
  | array _ => .array
  | object _ => .object

/-- Null, false, zero and the empty text count as false. What is not a number counts as true. -/
def truthy : Value → Bool
  | null => false
  | boolean value => value
  | number value => value != 0
  | string value => value.size ≠ 0
  | _ => true

/-- Equality of the language: numbers are compared as numbers, shared values by where they are, and values of
different kinds are never equal. -/
def equals : Value → Value → Bool
  | number a, number b => a == b
  | a, b => a = b

end Value

end TinyScript
