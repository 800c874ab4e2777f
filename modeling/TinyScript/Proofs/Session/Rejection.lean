import TinyScript.Proofs.Session.Requests

namespace TinyScript

namespace Result

/-- The source has been rejected. -/
structure Rejected (source : Text) (r : Result) : Prop where
  value : r.value = none
  printed : r.printed = []
  hadSyntaxError : r.hadSyntaxError = true
  hadRuntimeError : r.hadRuntimeError = false
  diagnostics : Source.Blamed source r.diagnostics

/-- The program has failed with one error. -/
structure Failed (r : Result) : Prop where
  value : r.value = none
  hadSyntaxError : r.hadSyntaxError = false
  hadRuntimeError : r.hadRuntimeError = true
  diagnostics : ∃ d : Diagnostic, r.diagnostics = [d] ∧ d.kind = .runtime

/-- The program has run to its end. -/
structure Finished (r : Result) : Prop where
  hadSyntaxError : r.hadSyntaxError = false
  hadRuntimeError : r.hadRuntimeError = false
  diagnostics : r.diagnostics = []

theorem hadSyntaxError_of_completed {r : Result} (completed : r.Failed ∨ r.Finished) : r.hadSyntaxError = false :=
  completed.elim (·.hadSyntaxError) (·.hadSyntaxError)

end Result

/-- Some rejected runs are left out of what has been said. -/
inductive Thinned : List (Request × Answer) → List (Request × Answer) → Prop
  | nil : Thinned [] []
  | keep {exchange : Request × Answer} {log rest : List (Request × Answer)} :
    Thinned log rest → Thinned (exchange :: log) (exchange :: rest)
  | leave {source filename : Text} {r : Result} {log rest : List (Request × Answer)} :
    r.hadSyntaxError = true → Thinned log rest → Thinned ((.run source filename, .result r) :: log) rest

variable {s : Session} {source filename : Text} {report : Report} {steps : Nat}

theorem Session.Rejects.result (rejects : s.Rejects source report) : report.result.Rejected source := by
  obtain ⟨⟨ds, ending, blamed⟩, printed, _⟩ := rejects
  unfold Report.result
  rw [ending]
  exact ⟨rfl, printed, rfl, rfl, blamed⟩

theorem Session.Completes.result (completes : s.Completes report) :
    report.result.Failed ∨ report.result.Finished := by
  unfold Report.result
  rcases completes.ending with ⟨error, ending⟩ | ⟨value, ending⟩
  · rw [ending]
    exact .inl ⟨rfl, rfl, rfl, error.diagnostic, rfl, rfl⟩
  · rw [ending]
    exact .inr ⟨rfl, rfl, rfl⟩

namespace Caller

variable {c d : Caller} {request : Request} {requests : List Request} {answer : Answer} {r : Result}
  {log rest : List (Request × Answer)}

/-- A request is a run under a name that has not been rejected. -/
def Accepted (name : Text) (exchange : Request × Answer) : Prop :=
  ∃ source r, exchange = (.run source name, .result r) ∧ r.hadSyntaxError = false

theorem ask_run (asked : c.ask steps (.run source filename) = some (answer, d)) :
    (∃ r, answer = .result r ∧ r.Rejected source ∧ d = c) ∨
      ∃ r, answer = .result r ∧ (r.Failed ∨ r.Finished) ∧
        d.session.filenames = c.session.filenames.insert filename := by
  obtain ⟨report, run, same⟩ := Option.map_eq_some_iff.1 asked
  cases same
  rcases Session.run_outcome run with rejects | completes
  · obtain ⟨ds, ending, _⟩ := rejects.ending
    refine .inl ⟨_, rfl, rejects.result, ?_⟩
    rw [rejects.session, ending]
    rfl
  · exact .inr ⟨_, rfl, completes.result, completes.filenames⟩

/-- A rejected run leaves everything as it was. -/
theorem ask_rejected (asked : c.ask steps (.run source filename) = some (.result r, d))
    (rejected : r.hadSyntaxError = true) : d = c := by
  rcases ask_run asked with ⟨_, _, _, same⟩ | ⟨r, ⟨⟩, completed, _⟩
  · exact same
  · rw [Result.hadSyntaxError_of_completed completed] at rejected
    cases rejected

/-- What is not run under a name puts down no name. -/
theorem ask_other (asked : c.ask steps request = some (answer, d)) (other : ∀ source name, request ≠ .run source name) :
    d.session.filenames = c.session.filenames := by
  cases request with
  | run source filename => exact absurd rfl (other source filename)
  | interpret p =>
    obtain ⟨report, run, same⟩ := Option.map_eq_some_iff.1 asked
    cases same
    exact (Session.interpret_completes run).filenames
  | get | dump | reset =>
    cases asked
    rfl

theorem ask_filenames (asked : c.ask steps request = some (answer, d)) (name : Text) :
    name ∈ d.session.filenames ↔ name ∈ c.session.filenames ∨ Accepted name (request, answer) := by
  by_cases run : ∃ source filename, request = .run source filename
  · obtain ⟨source, filename, rfl⟩ := run
    rcases ask_run asked with ⟨r, rfl, rejected, rfl⟩ | ⟨r, rfl, completed, filenames⟩
    · refine ⟨.inl, fun known => known.resolve_right ?_⟩
      rintro ⟨_, _, ⟨⟩, accepted⟩
      rw [rejected.hadSyntaxError] at accepted
      cases accepted
    · rw [filenames, List.mem_insert_iff, or_comm]
      refine or_congr_right ⟨?_, ?_⟩
      · rintro rfl
        exact ⟨source, r, rfl, Result.hadSyntaxError_of_completed completed⟩
      · rintro ⟨_, _, ⟨⟩, _⟩
        rfl
  · have other (source name : Text) : request ≠ .run source name := fun same => run ⟨source, name, same⟩
    rw [ask_other asked other]
    refine ⟨.inl, fun known => known.resolve_right ?_⟩
    rintro ⟨source, r, same, _⟩
    exact other source name (Prod.mk.inj same).1

theorem talk_filenames (talked : c.talk steps requests = some (log, d)) (name : Text) :
    name ∈ d.session.filenames ↔ name ∈ c.session.filenames ∨ ∃ exchange ∈ log, Accepted name exchange := by
  induction requests generalizing c log with
  | nil =>
    cases talked
    simp
  | cons request more ih =>
    obtain ⟨answer, next, rest, asked, later, rfl⟩ := talk_cons.1 talked
    rw [ih later, ask_filenames asked name, or_assoc, List.exists_mem_cons_iff]

/-- Every run is rejected, fails or finishes. -/
theorem talk_results (talked : c.talk steps requests = some (log, d)) (mem : (.run source filename, answer) ∈ log) :
    ∃ r, answer = .result r ∧ (r.Rejected source ∨ r.Failed ∨ r.Finished) := by
  induction requests generalizing c log with
  | nil =>
    cases talked
    cases mem
  | cons request more ih =>
    obtain ⟨answer, next, rest, asked, later, rfl⟩ := talk_cons.1 talked
    rcases List.mem_cons.1 mem with here | mem
    · cases here
      rcases ask_run asked with ⟨r, same, rejected, _⟩ | ⟨r, same, completed, _⟩
      · exact ⟨r, same, .inl rejected⟩
      · exact ⟨r, same, .inr completed⟩
    · exact ih later mem

/-- Without some rejected runs everything else is answered the same. -/
theorem talk_thinned (talked : c.talk steps requests = some (log, d)) (thinned : Thinned log rest) :
    c.talk steps (rest.map Prod.fst) = some (rest, d) := by
  induction thinned generalizing c requests with
  | nil =>
    cases talk_requests talked
    exact talked
  | @keep exchange log rest _ ih =>
    obtain ⟨request, given⟩ := exchange
    cases talk_requests talked
    obtain ⟨answer, next, log, asked, later, same⟩ := talk_cons.1 talked
    cases same
    exact talk_cons.2 ⟨given, next, rest, asked, ih later, rfl⟩
  | leave rejected _ ih =>
    cases talk_requests talked
    obtain ⟨answer, next, rest, asked, later, same⟩ := talk_cons.1 talked
    cases same
    cases ask_rejected asked rejected
    exact ih later

/-- Whatever a new session is asked, every run is rejected, fails or finishes. When some rejected runs are left out, all
else is answered the same and the session is the same in the end. Names are put down exactly when a program has been run
under them that was not rejected. -/
theorem talk_outcomes (callLimit : Nat) (time : Float) (steps : Nat) (requests : List Request)
    (log : List (Request × Answer)) (c : Caller) (talked : (start callLimit time).talk steps requests = some (log, c)) :
    (∀ source filename answer, (.run source filename, answer) ∈ log →
      ∃ r, answer = .result r ∧ (r.Rejected source ∨ r.Failed ∨ r.Finished)) ∧
    (∀ rest, Thinned log rest → (start callLimit time).talk steps (rest.map Prod.fst) = some (rest, c)) ∧
    ∀ name, name ∈ c.session.filenames ↔ ∃ exchange ∈ log, Accepted name exchange := by
  refine ⟨fun _ _ _ => talk_results talked, fun _ => talk_thinned talked, fun name => ?_⟩
  have none : name ∉ (start callLimit time).session.filenames := List.not_mem_nil
  rw [talk_filenames talked name, or_iff_right none]

/-- A program that is accepted and one that fails, with a rejected one before each. -/
def fourRuns : List Request := [.run "var;" "a", .run "var x = 2;" "b", .run "@" "b", .run "y;" "c"]

/-- What the four runs are answered. -/
def fourAnswers : List Answer := [
  .result ⟨none, [], [⟨.grammatical, 1, "at ';'", "Expect variable name."⟩], true, false⟩,
  .result ⟨none, [], [], false, false⟩,
  .result ⟨none, [], [⟨.lexical, 1, [], "Unexpected character '@'."⟩], true, false⟩,
  .result ⟨none, [], [⟨.runtime, 1, [], "Undefined variable 'y'."⟩], false, true⟩]

/-- The rejected ones can be left out, and only the names of the others are put down. -/
theorem talk_outcomes_four : ∃ c : Caller, (start 8 0).talk 30 fourRuns = some (fourRuns.zip fourAnswers, c) ∧
    ((∀ source filename answer, (.run source filename, answer) ∈ fourRuns.zip fourAnswers →
        ∃ r, answer = .result r ∧ (r.Rejected source ∨ r.Failed ∨ r.Finished)) ∧
      (start 8 0).talk 30 [.run "var x = 2;" "b", .run "y;" "c"] =
        some ([.run "var x = 2;" "b", .run "y;" "c"].zip [fourAnswers[1], fourAnswers[3]], c) ∧
      ∀ name, name ∈ (["c", "b"] : List Text) ↔ ∃ exchange ∈ fourRuns.zip fourAnswers, Accepted name exchange) := by
  have runs : ((start 8 0).talk 30 fourRuns).map (fun said => (said.1.map Prod.snd, said.2.session.filenames)) =
      some (fourAnswers, (["c", "b"] : List Text)) := by decide +kernel
  obtain ⟨⟨log, c⟩, talked, shown⟩ := Option.map_eq_some_iff.1 runs
  obtain ⟨given, filenames⟩ := Prod.mk.inj shown
  obtain rfl := log_eq_zip talked given
  obtain ⟨results, thinned, names⟩ := talk_outcomes 8 0 30 fourRuns _ c talked
  rw [filenames] at names
  exact ⟨c, talked, results, thinned _ (.leave rfl (.keep (.leave rfl (.keep .nil)))), names⟩

end Caller

end TinyScript
