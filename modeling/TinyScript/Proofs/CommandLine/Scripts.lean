import TinyScript.Proofs.CommandLine.Process
import TinyScript.Proofs.Printer.ReadBack
import TinyScript.Proofs.Session.CallLimit
import TinyScript.Proofs.Session.Outcomes

namespace TinyScript

open Session

variable {steps : Nat} {time : Float} {debug : Bool} {s : Session} {source filename : Text} {report : Report}
  {p : Program} {error : RuntimeError} {st : State} {ds : List Diagnostic}

/-- What is wrong with the tokens of a source, or else with the program that they make up. -/
def Source.faults (source : Text) : List Diagnostic :=
  if (ofText source).diagnostics ≠ [] then (ofText source).diagnostics else (Program.ofSource source).2

theorem Source.faults_ne_nil : faults source ≠ [] ↔
    (ofText source).diagnostics ≠ [] ∨ (ofText source).diagnostics = [] ∧ (Program.ofSource source).2 ≠ [] := by
  unfold faults
  split
  · next wrong => simp [wrong]
  · next fine => simp [Classical.not_not.1 fine]

theorem Session.readProgram_eq (source : Text) : readProgram source =
    if Source.faults source ≠ [] then .error (Source.faults source) else .ok (Program.ofSource source).1 := by
  unfold readProgram Source.faults
  by_cases wrong : (Source.ofText source).diagnostics ≠ []
  · simp only [if_pos wrong]
  · simp only [if_neg wrong]
    rfl

theorem Session.readProgram_eq_error (read : readProgram source = .error ds) :
    Source.faults source ≠ [] ∧ ds = Source.faults source := by
  rw [readProgram_eq] at read
  split at read
  · next wrong =>
    cases read
    exact ⟨wrong, rfl⟩
  · cases read

theorem Session.readProgram_eq_ok (read : readProgram source = .ok p) : Source.faults source = [] := by
  rw [readProgram_eq] at read
  split at read
  · cases read
  · next fine => exact Classical.not_not.1 fine

namespace Repl

theorem diagnosticLines_eq_nil : diagnosticLines ds = [] ↔ ds = [] := by
  cases ds <;> simp [diagnosticLines]

theorem diagnosticLines_singleton (d : Diagnostic) : diagnosticLines [d] = d.text ++ [newline] := by
  simp [diagnosticLines]

end Repl

namespace CommandLine

/-- What the end of a process tells of a source that it has run in a session. -/
structure Exit.Tells (exit : Exit) (debug : Bool) (steps : Nat) (s : Session) (source : Text) : Prop where
  codes : exit.code = 0 ∨ exit.code = 65 ∨ exit.code = 70
  fine : exit.code = 0 ↔ exit.errors = []
  rejected : exit.code = 65 ↔
    (Source.ofText source).diagnostics ≠ [] ∨ (Source.ofText source).diagnostics = [] ∧ (Program.ofSource source).2 ≠ []
  /-- The session is as it was. -/
  untouched : exit.code = 65 → exit.output = if debug then s.dump else []
  faults : exit.code = 65 → exit.errors = Repl.diagnosticLines (Source.faults source)
  failed : exit.code = 70 ↔
    ∃ p error st, readProgram source = .ok p ∧ (s.begins p).run steps = .failed error st
  /-- Whatever has been printed up to the error comes first, and the error is all that is complained about. -/
  failure : ∀ p error st, readProgram source = .ok p → (s.begins p).run steps = .failed error st →
    st.printed.toList.flatten <+: exit.output ∧
      (∀ calls m, Within (s.begins p) calls m → m.state.printed.toList.flatten <+: exit.output) ∧
      exit.errors = error.diagnostic.text ++ [newline]

/-- How the process ends when a report has been given. -/
def Exit.ofReport (debug : Bool) (report : Report) : Exit :=
  ⟨exitCode report.ending, report.printed ++ (if debug then report.session.dump else []),
    Repl.diagnosticLines report.ending.diagnostics⟩

theorem tells_rejected (read : readProgram source = .error ds) :
    (Exit.ofReport debug ⟨.rejected ds, [], s⟩).Tells debug steps s source := by
  obtain ⟨wrong, rfl⟩ := readProgram_eq_error read
  have unread {p : Program} : readProgram source ≠ .ok p := by simp [read]
  constructor
  case codes => exact .inr (.inl rfl)
  case fine => simpa [Exit.ofReport, exitCode, Repl.diagnosticLines_eq_nil, Ending.diagnostics] using wrong
  case rejected => exact ⟨fun _ => Source.faults_ne_nil.1 wrong, fun _ => rfl⟩
  case untouched => exact fun _ => rfl
  case faults => exact fun _ => rfl
  case failed => simp [Exit.ofReport, exitCode, unread]
  case failure => exact fun p _ _ other => absurd other unread

theorem tells_finished {completion : Completion} {value : Option Value} {printed : Text} {after : Session}
    (read : readProgram source = .ok p) (ends : (s.begins p).run steps = .done completion st) :
    (Exit.ofReport debug ⟨.finished value, printed, after⟩).Tells debug steps s source := by
  have faultless : ¬ Source.faults source ≠ [] := not_not_intro (readProgram_eq_ok read)
  have unfailed {q : Program} {error : RuntimeError} {st : State} (other : readProgram source = .ok q) :
      (s.begins q).run steps ≠ .failed error st := by
    rw [← Except.ok.inj (read.symm.trans other), ends]
    exact nofun
  constructor
  case codes => exact .inl rfl
  case fine => exact ⟨fun _ => rfl, fun _ => rfl⟩
  case rejected => simpa [Exit.ofReport, exitCode] using mt Source.faults_ne_nil.2 faultless
  case untouched => simp [Exit.ofReport, exitCode]
  case faults => simp [Exit.ofReport, exitCode]
  case failed =>
    simp only [Exit.ofReport, exitCode, OfNat.zero_ne_ofNat, false_iff, not_exists, not_and]
    exact fun q error st other => unfailed other
  case failure => exact fun q error st other failed => absurd failed (unfailed other)

theorem tells_failed {after : Session} (read : readProgram source = .ok p)
    (ends : (s.begins p).run steps = .failed error st) :
    (Exit.ofReport debug ⟨.failed error, st.printed.toList.flatten, after⟩).Tells debug steps s source := by
  have faultless : ¬ Source.faults source ≠ [] := not_not_intro (readProgram_eq_ok read)
  have run : interpret steps s p = some _ := (interpret_eq steps s p).trans (congrArg s.report? ends)
  have before {calls : Nat} {m : Moment} (within : Within (s.begins p) calls m) :
      m.state.printed.toList.flatten <+: st.printed.toList.flatten := prefix_of_within within run
  constructor
  case codes => exact .inr (.inr rfl)
  case fine => simp [Exit.ofReport, exitCode, Ending.diagnostics, Repl.diagnosticLines_eq_nil]
  case rejected => simpa [Exit.ofReport, exitCode] using mt Source.faults_ne_nil.2 faultless
  case untouched => simp [Exit.ofReport, exitCode]
  case faults => simp [Exit.ofReport, exitCode]
  case failed => exact ⟨fun _ => ⟨p, error, st, read, ends⟩, fun _ => rfl⟩
  case failure =>
    intro q error' st' other failed
    obtain rfl := Except.ok.inj (read.symm.trans other)
    rw [ends] at failed
    cases failed
    exact ⟨List.prefix_append _ _, fun calls m within => (before within).trans (List.prefix_append _ _),
      Repl.diagnosticLines_singleton _⟩

/-- The names under which programs have been run do not matter. -/
theorem tells_interpreted {names : List Text} (read : readProgram source = .ok p)
    (run : interpret steps { s with filenames := names } p = some report) :
    (Exit.ofReport debug report).Tells debug steps s source := by
  rw [interpret_eq] at run
  cases ends : (s.begins p).run steps with
  | done completion st =>
    have reported : some _ = some report := (congrArg (report? { s with filenames := names }) ends).symm.trans run
    cases reported
    exact tells_finished read ends
  | failed error st =>
    have reported : some _ = some report := (congrArg (report? { s with filenames := names }) ends).symm.trans run
    cases reported
    exact tells_failed read ends
  | unfinished =>
    have reported : none = some report := (congrArg (report? { s with filenames := names }) ends).symm.trans run
    cases reported

/-- A command line that asks for no help and names a script that can be read ends with a code and with outputs that tell
how the script has ended. A script that is rejected leaves the session as it began, however many steps it may take. -/
theorem run_script (steps : Nat) (time : Float) (program input : Text) {arguments : List Text}
    {read : Text → Except ReadError Text} {settings : Settings} {script contents : Text} {report : Report}
    (accepted : readArguments .default arguments = .ok settings) (unhelped : settings.help = false)
    (named : settings.script = some script) (readable : read script = .ok contents)
    (finishes : (Session.start settings.callLimit time).run steps contents script = some report) :
    ∃ exit, run steps time program arguments read input = some exit ∧
      exit.Tells settings.debug steps (Session.start settings.callLimit time) contents ∧
      (exit.code = 65 → report.printed = [] ∧ report.session = .start settings.callLimit time ∧
        ∀ steps, run steps time program arguments read input = some exit) := by
  have runs (steps : Nat) : run steps time program arguments read input =
      ((Session.start settings.callLimit time).run steps contents script).map (Exit.ofReport settings.debug) := by
    simp only [run_arguments, accepted, unhelped, named, readable]
    rfl
  refine ⟨.ofReport settings.debug report, by rw [runs, finishes, Option.map_some], ?_⟩
  rw [run_eq] at finishes
  cases reads : readProgram contents with
  | error ds =>
    rw [reads] at finishes
    cases finishes
    refine ⟨tells_rejected reads, fun _ => ⟨rfl, rfl, fun steps => ?_⟩⟩
    rw [runs, run_eq, reads]
    rfl
  | ok p =>
    rw [reads] at finishes
    have tells : (Exit.ofReport settings.debug report).Tells _ _ (.start settings.callLimit time) contents :=
      tells_interpreted reads finishes
    refine ⟨tells, fun rejected => ?_⟩
    exact absurd (readProgram_eq_ok reads) (Source.faults_ne_nil.2 (tells.rejected.1 rejected))

/-- A script that prints before it fails. -/
theorem run_script_failing : ∃ exit,
    run 60 0 "tiny" ["-s", "9", "a.js"] (fun _ => .ok "console.log(1); y; console.log(2);") [] = some exit ∧
      exit.Tells false 60 (Session.start 9 0) "console.log(1); y; console.log(2);" ∧
      exit = ⟨70, "1\n", "[line 1] Runtime error: Undefined variable 'y'.\n"⟩ := by
  have fails : ((Session.start 9 0).run 60 "console.log(1); y; console.log(2);" "a.js").isSome := by decide +kernel
  obtain ⟨report, finishes⟩ := Option.isSome_iff_exists.1 fails
  obtain ⟨exit, ends, tells, _⟩ := @run_script 60 0 "tiny" [] ["-s", "9", "a.js"]
    (fun _ => .ok "console.log(1); y; console.log(2);") ⟨false, false, 9, some "a.js"⟩ "a.js" _ report
    (by decide) rfl rfl rfl finishes
  have written : run 60 0 "tiny" ["-s", "9", "a.js"] (fun _ => .ok "console.log(1); y; console.log(2);") [] =
      some ⟨70, "1\n", "[line 1] Runtime error: Undefined variable 'y'.\n"⟩ := by
    decide +kernel
  exact ⟨exit, ends, tells, Option.some.inj (ends.symm.trans written)⟩

end CommandLine

end TinyScript
