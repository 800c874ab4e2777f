import TinyScript.Session

namespace TinyScript

/-- How a process reaches the world around it, in the monad in which it runs. -/
structure Terminal (m : Type → Type) where
  /-- Writes to the standard output. -/
  write : Text → m Unit
  /-- Writes to the standard error output. -/
  complain : Text → m Unit
  /-- Lets the clock of a session show the time. -/
  setClock : Session → m Session
  /-- What comes of a run, if its steps suffice. -/
  await {α : Type} : Option α → m α

/-- What has been written to the two outputs. -/
structure Outputs where
  output : Text
  errors : Text

/-- The terminal that only keeps what is written. Its clock stands still, and nothing comes of a run whose steps do not
suffice. -/
def Terminal.keeping : Terminal (StateT Outputs Option) where
  write t := modify fun w => { w with output := w.output ++ t }
  complain t := modify fun w => { w with errors := w.errors ++ t }
  setClock := pure
  await := StateT.lift

namespace Terminal

variable (w : Outputs)

@[simp] theorem keeping_write (t : Text) : (keeping.write t).run w = some ((), ⟨w.output ++ t, w.errors⟩) := rfl

@[simp] theorem keeping_complain (t : Text) : (keeping.complain t).run w = some ((), ⟨w.output, w.errors ++ t⟩) := rfl

@[simp] theorem keeping_setClock (s : Session) : (keeping.setClock s).run w = some (s, w) := rfl

@[simp] theorem keeping_await {α : Type} (reply : Option α) :
    (keeping.await reply).run w = reply.map fun a => (a, w) := by
  cases reply <;> rfl

end Terminal

end TinyScript
