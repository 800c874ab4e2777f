import TinyScript.CommandLine
import TinyScript.Proofs.Repl.Transcripts

namespace TinyScript.CommandLine

theorem finish_run (exit : Exit) (w : Outputs) :
    (finish .keeping exit).run w = some (exit.code, ⟨w.output ++ exit.output, w.errors ++ exit.errors⟩) := by
  simp [finish]

/-- How a process ends that does one thing after the other. -/
theorem run_arguments (steps : Nat) (time : Float) (program : Text) (arguments : List Text)
    (read : Text → Except ReadError Text) (input : Text) : run steps time program arguments read input =
      match readArguments .default arguments with
      | .error e => some (.misuse program e)
      | .ok settings =>
        if settings.help then some (.help program)
        else match settings.script with
          | none => (Repl.run steps settings.debug (.start settings.callLimit time) input).map fun transcript =>
            ⟨0, banner ++ transcript.output, transcript.errors⟩
          | some script =>
            match read script with
            | .error e => some (.unreadable script e)
            | .ok contents => runScript steps time settings script contents := by
  unfold run process
  cases readArguments .default arguments with
  | error e => simp [finish_run]
  | ok settings =>
    dsimp only
    split
    · simp [finish_run]
    · cases settings.script with
      | none => simp [Repl.converse_run_eq, Repl.run, Function.comp_def]
      | some script =>
        cases found : read script with
        | error e => simp [found, finish_run]
        | ok contents => cases ends : runScript steps time settings script contents <;> simp [found, finish_run, ends]

end TinyScript.CommandLine
