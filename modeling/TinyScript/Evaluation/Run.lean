import TinyScript.Diagnostic
import TinyScript.Store.Display

namespace TinyScript

/-- Why a program cannot go on. -/
inductive Fault where
  | undefinedVariable (name : Text)
  | operands (op : BinaryOperator) (left right : Value.Kind)
  | operand (kind : Value.Kind)
  | argumentCount (expected got : Nat)
  | stackOverflow
  | notCallable (kind : Value.Kind)
  | objectKey (kind : Value.Kind)
  | notIndexable (kind : Value.Kind)
  | argument (which : Builtin) (kind : Value.Kind)
  deriving DecidableEq

def Fault.message : Fault → Text
  | undefinedVariable name => "Undefined variable '" ++ name ++ "'."
  | operands op left right =>
    "Operands of '" ++ op.symbol ++ "' must be numbers, got " ++ left.name ++ " and " ++ right.name ++ "."
  | operand kind => "Operand of '-' must be a number, got " ++ kind.name ++ "."
  | argumentCount expected got =>
    "Expected " ++ Text.ofNat expected ++ " arguments but got " ++ Text.ofNat got ++ "."
  | stackOverflow => "Stack overflow."
  | notCallable kind => "Can only call functions, got " ++ kind.name ++ "."
  | objectKey kind => "Object keys must be strings, got " ++ kind.name ++ "."
  | notIndexable kind => "Cannot index a value of type " ++ kind.name ++ "."
  | argument which kind => "Argument of type " ++ kind.name ++ " to " ++ which.name ++ "() is not supported."

structure RuntimeError where
  line : Nat
  fault : Fault
  deriving DecidableEq

def RuntimeError.diagnostic (e : RuntimeError) : Diagnostic := ⟨.runtime, e.line, [], e.fault.message⟩

/-- What a run reads and changes. -/
structure State where
  store : Store
  /-- What has been printed, in order. -/
  printed : Array Text
  /-- The value that was worked out last. It stays in use when nothing else refers to it. -/
  latest : Value

/-- A run is done with a value, or has failed at a line, or is unfinished when its steps do not suffice. Whatever was
done before a failure stays done. -/
inductive Outcome (α : Type) where
  | done (value : α) (state : State)
  | failed (error : RuntimeError) (state : State)
  | unfinished

def Run (α : Type) : Type := State → Outcome α

namespace Run

variable {α β : Type}

@[inline] def bind (x : Run α) (f : α → Run β) : Run β := fun state =>
  match x state with
  | .done value state => f value state
  | .failed error state => .failed error state
  | .unfinished => .unfinished

@[inline] def done (value : α) : Run α := fun state => .done value state

@[always_inline] instance : Monad Run where
  pure := done
  bind := bind

theorem bind_apply (x : Run α) (f : α → Run β) (st : State) : (x >>= f) st =
    match x st with
    | .done a st' => f a st'
    | .failed error st' => .failed error st'
    | .unfinished => .unfinished := rfl

def fail (line : Nat) (fault : Fault) : Run α := fun state => .failed ⟨line, fault⟩ state

def unfinished : Run α := fun _ => .unfinished

/-- Reads something off the store. -/
@[inline] def reading (f : Store → α) : Run α := fun state => .done (f state.store) state

/-- Changes the store, and yields something new in it. -/
@[inline] def creating (f : Store → α × Store) : Run α := fun ⟨store, printed, latest⟩ =>
  let (value, store) := f store
  .done value ⟨store, printed, latest⟩

@[inline] def changing (f : Store → Store) : Run Unit := fun ⟨store, printed, latest⟩ =>
  .done () ⟨f store, printed, latest⟩

def print (t : Text) : Run Unit := fun ⟨store, printed, latest⟩ => .done () ⟨store, printed.push t, latest⟩

/-- A value becomes the latest one. -/
@[inline] def keep (value : Value) : Run Unit := fun ⟨store, printed, _⟩ => .done () ⟨store, printed, value⟩

/-- What a run yields becomes the latest value. After a failure that is what was worked out before it. -/
@[inline] def keeping (x : Run Value) : Run Value := do
  let value ← x
  keep value
  pure value

end Run

end TinyScript
