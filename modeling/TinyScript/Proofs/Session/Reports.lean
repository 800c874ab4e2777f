import TinyScript.Session
import TinyScript.Proofs.Evaluation.Moments

namespace TinyScript.Session

open Evaluation

/-- Where a program begins in a session. -/
def begins (s : Session) (p : Program) : Moment :=
  ⟨⟨s.globals, 0, s.callLimit, hostRoom, s.time⟩, .execAll none p.statements, ⟨s.store, #[], .null⟩⟩

/-- The value of a program that has ended like this. -/
def valueOf : Completion → Option Value
  | .returned value => some value
  | .normal value => value

/-- How a run is reported. -/
def report? (s : Session) : Outcome Completion → Option Report
  | .done completion st =>
    some ⟨.finished (valueOf completion), st.printed.toList.flatten, { s with store := st.store, latest := st.latest }⟩
  | .failed error st =>
    some ⟨.failed error, st.printed.toList.flatten, { s with store := st.store, latest := st.latest }⟩
  | .unfinished => none

variable {s : Session} {p : Program} {report : Report} {o : Outcome Completion} {steps : Nat}

theorem interpret_eq (steps : Nat) (s : Session) (p : Program) :
    interpret steps s p = s.report? ((s.begins p).run steps) := by
  show _ = s.report?
    (execAll steps ⟨s.globals, 0, s.callLimit, hostRoom, s.time⟩ none p.statements ⟨s.store, #[], .null⟩)
  rw [interpret, program, Run.bind_apply]
  cases execAll steps ⟨s.globals, 0, s.callLimit, hostRoom, s.time⟩ none p.statements ⟨s.store, #[], .null⟩ with
  | done completion st => cases completion <;> rfl
  | failed error st => rfl
  | unfinished => rfl

/-- What has been printed is reported, and the session goes on with the store. -/
theorem report?_eq (reported : s.report? o = some report) : ∃ st, o.state? = some st ∧
    report.printed = st.printed.toList.flatten ∧
    report.session = { s with store := st.store, latest := st.latest } := by
  cases o with
  | done completion st =>
    cases reported
    exact ⟨st, rfl, rfl, rfl⟩
  | failed error st =>
    cases reported
    exact ⟨st, rfl, rfl, rfl⟩
  | unfinished => cases reported

/-- However many steps are taken, a program that ends is reported the same. -/
theorem interpret_unique {more : Nat} {report' : Report} (run : interpret steps s p = some report)
    (other : interpret more s p = some report') : report' = report := by
  rw [interpret_eq] at run other
  have same : (s.begins p).run more = (s.begins p).run steps := by
    refine Moment.run_unique _ (fun unfinished => ?_) (fun unfinished => ?_)
    · rw [unfinished] at other
      cases other
    · rw [unfinished] at run
      cases run
  rw [same, run] at other
  cases other
  rfl

end TinyScript.Session
