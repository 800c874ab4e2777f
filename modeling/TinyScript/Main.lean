import Std.Time.DateTime.Timestamp
import TinyScript.CommandLine

namespace TinyScript.Main

/-- The bytes of a string as the system gives it. -/
def textOf (s : String) : Text := s.toUTF8.toList

def write (stream : IO.FS.Stream) (t : Text) : IO Unit := do
  stream.write ⟨t.toArray⟩
  stream.flush

/-- The seconds since the epoch. -/
def now : IO Float := do
  let time ← Std.Time.Timestamp.now
  pure (Float.ofInt time.toNanosecondsSinceUnixEpoch.toInt / 1000000000)

/-- The terminal of the process. -/
def terminal : Terminal IO where
  write t := do write (← IO.getStdout) t
  complain t := do write (← IO.getStderr) t
  setClock s := do pure { s with time := ← now }
  await
    | some reply => pure reply
    | none => throw (.userError "too many steps")

/-- The lines of a stream, as they come in. -/
structure Lines where
  stream : IO.FS.Stream

namespace Lines

/-- The next line without its end, and what has been read behind it. -/
partial def next (lines : Lines) (pending : Text) : IO (Option (Text × Text)) := do
  match pending.dropWhile (· ≠ newline) with
  | _ :: behind => pure (some (pending.takeWhile (· ≠ newline), behind))
  | [] =>
    let chunk ← lines.stream.read 4096
    if chunk.isEmpty then
      pure (if pending = [] then none else some (pending, []))
    else lines.next (pending ++ chunk.toList)

/-- Goes through the lines until there are no more or the body is done. Some text has been read already. -/
partial def each {α : Type} (lines : Lines) (body : Text → α → IO (ForInStep α)) (a : α) (pending : Text) : IO α := do
  match ← lines.next pending with
  | none => pure a
  | some (line, pending) =>
    match ← body line a with
    | .done a => pure a
    | .yield a => lines.each body a pending

instance : ForIn IO Lines Text where
  forIn lines a body := lines.each body a []

end Lines

/-- The contents of a file. -/
def readScript (path : Text) : IO (Except CommandLine.ReadError Text) := do
  try
    let bytes ← IO.FS.readBinFile ((String.fromUTF8? ⟨path.toArray⟩).getD "")
    pure (.ok bytes.toList)
  catch
    | .noFileOrDirectory .. | .permissionDenied .. => pure (.error .notFound)
    | e => pure (.error (.broken (textOf (toString e))))

/-- Does what the arguments ask for, and yields the exit code. -/
def run (arguments : List String) : IO UInt32 := do
  let code ← CommandLine.process terminal Session.allSteps (← now) "minijs" (arguments.map textOf) readScript
    (Lines.mk (← IO.getStdin))
  pure code.toUInt32

end TinyScript.Main

def main (arguments : List String) : IO UInt32 := TinyScript.Main.run arguments
