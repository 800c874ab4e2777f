import Mathlib.Data.Nat.SuccPred
import TinyScript.Proofs.Evaluation.Limit
import TinyScript.Proofs.Session.Reports

namespace TinyScript

open Evaluation

/-- No other problem reads like too many calls. -/
theorem Fault.message_eq_iff (f : Fault) : f.message = "Stack overflow." ↔ f = .stackOverflow := by
  constructor
  · intro same
    have begins := congrArg List.head? same
    cases f with
    | stackOverflow => rfl
    | _ => cases begins
  · rintro rfl
    rfl

namespace Report

/-- The program has made too many calls. -/
def Overflows (r : Report) : Prop := ∃ d ∈ r.ending.diagnostics, d.message = "Stack overflow."

instance (r : Report) : Decidable r.Overflows :=
  inferInstanceAs (Decidable (∃ d ∈ r.ending.diagnostics, d.message = "Stack overflow."))

end Report

namespace Session

/-- The session with another limit of calls. -/
def limited (limit : Nat) (s : Session) : Session := { s with callLimit := limit }

/-- At some moment of running the program so many calls of closures are active. -/
def Active (s : Session) (p : Program) (calls : Nat) : Prop := ∃ m, Within (s.begins p) calls m

/-- At some moment of running the program, or at its end, this has been printed. -/
def Prints (s : Session) (p : Program) (printed : Text) : Prop :=
  (∃ calls m, Within (s.begins p) calls m ∧ m.state.printed.toList.flatten = printed) ∨
    ∃ steps report, interpret steps s p = some report ∧ report.printed = printed

variable {s : Session} {p : Program} {report : Report} {o : Outcome Completion} {steps n m : Nat}

theorem overflows_iff (reported : s.report? o = some report) :
    report.Overflows ↔ ∃ line st, o = .failed ⟨line, .stackOverflow⟩ st := by
  cases o with
  | done completion st =>
    cases reported
    simp [Report.Overflows, Ending.diagnostics]
  | failed error st =>
    cases reported
    obtain ⟨line, fault⟩ := error
    simp [Report.Overflows, Ending.diagnostics, RuntimeError.diagnostic, Fault.message_eq_iff]
  | unfinished => cases reported

theorem report?_limited (reported : (s.limited n).report? o = some report) :
    (s.limited m).report? o = some { report with session := report.session.limited m } := by
  cases o with
  | done completion st =>
    cases reported
    rfl
  | failed error st =>
    cases reported
    rfl
  | unfinished => cases reported

/-- A program overflows if it is reported so after some number of steps. -/
theorem begins_overflows (overflows : (s.begins p).Overflows) :
    ∃ steps report, interpret steps s p = some report ∧ report.Overflows := by
  obtain ⟨steps, line, st, failed⟩ := overflows
  have reported : interpret steps s p = some _ := (interpret_eq steps s p).trans (congrArg s.report? failed)
  rw [interpret_eq] at reported
  exact ⟨steps, _, (interpret_eq steps s p).trans reported, (overflows_iff reported).2 ⟨line, st, failed⟩⟩

theorem begins_fine (run : interpret steps s p = some report) (fine : ¬ report.Overflows) :
    ¬ (s.begins p).Overflows := by
  intro overflows
  obtain ⟨more, report', other, overflows⟩ := begins_overflows overflows
  rw [interpret_unique run other] at overflows
  exact fine overflows

/-- What is printed at a moment of a run is the beginning of what it prints. -/
theorem prefix_of_within {calls : Nat} {w : Moment} (within : Within (s.begins p) calls w)
    (run : interpret steps s p = some report) : w.state.printed.toList.flatten <+: report.printed := by
  rw [interpret_eq] at run
  obtain ⟨st, ends, printed, _⟩ := report?_eq run
  obtain ⟨between, inside, further, _⟩ := kept_prints.ends within ends
  obtain ⟨more, all⟩ := (kept_prints.run w inside).trans further
  refine ⟨more.flatten, ?_⟩
  rw [← List.flatten_append, all, printed]

/-- With a higher limit a program is reported the same, but for the limit, or it has overflowed at a call that the
lower limit refuses. -/
theorem interpret_limited (le : n ≤ m) (run : interpret steps (s.limited n) p = some report) :
    interpret steps (s.limited m) p = some { report with session := report.session.limited m } ∨
      ∃ k w, ((s.limited n).begins p).FailsAt m steps k w ∧ report.Overflows ∧
        w.state.printed.toList.flatten = report.printed := by
  rw [interpret_eq] at run
  rcases ((s.limited n).begins p).run_limited steps le with same | ⟨k, w, fails⟩
  · have same : ((s.limited m).begins p).run steps = ((s.limited n).begins p).run steps := same
    refine .inl ?_
    rw [interpret_eq, same]
    exact report?_limited run
  · obtain ⟨line, failed⟩ := fails.fails
    have overflows := (overflows_iff run).2 ⟨line, w.state, failed⟩
    rw [failed] at run
    cases run
    exact .inr ⟨k, w, fails, overflows, rfl⟩

/-- A run without overflow is the same with a higher limit. -/
theorem interpret_higher (le : n ≤ m) (run : interpret steps (s.limited n) p = some report)
    (fine : ¬ report.Overflows) :
    interpret steps (s.limited m) p = some { report with session := report.session.limited m } := by
  rcases interpret_limited le run with same | ⟨_, _, _, overflows, _⟩
  · exact same
  · exact absurd overflows fine

/-- What a run prints before it overflows is printed with a higher limit as well, and then perhaps more. -/
theorem prints_higher (le : n ≤ m) (run : interpret steps (s.limited n) p = some report) :
    (s.limited m).Prints p report.printed ∧
      ∀ more report', interpret more (s.limited m) p = some report' → report.printed <+: report'.printed := by
  rcases interpret_limited le run with same | ⟨k, w, fails, _, printed⟩
  · refine ⟨.inr ⟨steps, _, same, rfl⟩, fun more report' other => ?_⟩
    obtain rfl := interpret_unique same other
    exact List.prefix_rfl
  · have within : Within ((s.limited m).begins p) k (w.limited m) := fails.within
    refine ⟨.inl ⟨k, _, within, printed⟩, fun more report' other => ?_⟩
    have before : (w.limited m).state.printed.toList.flatten <+: report'.printed := prefix_of_within within other
    have shown : (w.limited m).state.printed.toList.flatten = report.printed := printed
    rwa [shown] at before

/-- What ends with a limit ends with a lower limit. -/
theorem interpret_lower (le : n ≤ m) (run : interpret steps (s.limited m) p = some report) :
    ∃ report', interpret steps (s.limited n) p = some report' := by
  rw [interpret_eq] at run
  have ended : ((s.limited n).begins p).run steps ≠ .unfinished := by
    intro unfinished
    rcases ((s.limited n).begins p).run_limited steps le with same | ⟨_, _, fails⟩
    · have same : ((s.limited m).begins p).run steps = ((s.limited n).begins p).run steps := same
      rw [same, unfinished] at run
      cases run
    · obtain ⟨line, failed⟩ := fails.fails
      rw [failed] at unfinished
      cases unfinished
  rw [interpret_eq]
  generalize ((s.limited n).begins p).run steps = o at ended
  cases o with
  | done completion st => exact ⟨_, rfl⟩
  | failed error st => exact ⟨_, rfl⟩
  | unfinished => exact absurd rfl ended

variable {calls d : Nat} {report' : Report}

theorem Active.le (active : s.Active p calls) : calls ≤ s.callLimit := by
  obtain ⟨w, within⟩ := active
  have depth : w.context.depth = 0 + calls := within.inside.depth
  have bound : w.context.depth ≤ max 0 s.callLimit := within.inside.bound
  omega

/-- There is a moment when the most calls are active. -/
theorem exists_most_active (s : Session) (p : Program) : ∃ d, IsGreatest {calls | s.Active p calls} d := by
  have bounded : BddAbove {calls | s.Active p calls} := ⟨s.callLimit, fun _ => Active.le⟩
  exact bounded.exists_isGreatest_of_nonempty ⟨0, _, .start⟩

/-- Where the lower limit makes a program overflow more calls are active than it allows. -/
theorem active_of_overflows (le : n ≤ m) (run : interpret steps (s.limited n) p = some report)
    (overflows : report.Overflows) (other : interpret steps (s.limited m) p = some report')
    (fine : ¬ report'.Overflows) : ∃ calls, n < calls ∧ (s.limited m).Active p calls := by
  rcases interpret_limited le run with same | ⟨k, w, fails, _, _⟩
  · rw [interpret_unique same other] at fine
    exact absurd overflows fine
  · obtain ⟨many, body, within⟩ := fails.enters (begins_fine other fine)
    have many : n ≤ 0 + k := many
    exact ⟨k + 1, by omega, body, within⟩

/-- A program that does not overflow has no more calls active with a higher limit. -/
theorem Active.lower (active : (s.limited m).Active p calls) (le : n ≤ m)
    (run : interpret steps (s.limited n) p = some report) (fine : ¬ report.Overflows) :
    (s.limited n).Active p calls := by
  obtain ⟨w, within⟩ := active
  obtain ⟨v, _, within, _⟩ := Moment.within_limited (m := (s.limited n).begins p) le (begins_fine run fine) within
  exact ⟨v, within⟩

/-- A program that ends with some limit overflows with another one exactly if at some moment more calls are active in it
than the other limit allows. -/
theorem overflows_iff_lt {free : Nat} (run : interpret steps (s.limited free) p = some report)
    (fine : ¬ report.Overflows) (most : IsGreatest {calls | (s.limited free).Active p calls} d) (n : Nat) :
    ∃ report', interpret steps (s.limited n) p = some report' ∧ (report'.Overflows ↔ n < d) := by
  obtain ⟨attained, greatest⟩ := most
  rcases Nat.le_total n free with le | le
  · obtain ⟨report', other⟩ := interpret_lower le run
    refine ⟨report', other, fun overflows => ?_, fun many => ?_⟩
    · obtain ⟨calls, many, active⟩ := active_of_overflows le other overflows run fine
      exact Nat.lt_of_lt_of_le many (greatest active)
    · refine Classical.byContradiction fun fine => ?_
      have low : d ≤ n := Active.le (Active.lower attained le other fine)
      omega
  · have low : d ≤ free := Active.le attained
    exact ⟨_, interpret_higher le run fine, fun overflows => absurd overflows fine, fun many => by omega⟩

/-- The limit bounds the calls of closures that are active at the same time, and nothing else. A program that ends
without overflow has the same report with every higher limit, so this is its report without a limit. When it overflows,
what it has printed is the beginning of what it prints with a higher limit, also if it does not end then. And a program
that ends with some limit without overflow overflows exactly with the limits below the greatest number of calls that
are active in it at the same time. Nothing is assumed about the room of the host: when it runs out, that reads like an
overflow too. -/
theorem interpret_callLimit (s : Session) (p : Program) :
    (∀ n m steps report, n ≤ m → interpret steps (s.limited n) p = some report →
      (¬ report.Overflows →
        interpret steps (s.limited m) p = some { report with session := report.session.limited m }) ∧
      (report.Overflows → (s.limited m).Prints p report.printed ∧
        ∀ more report', interpret more (s.limited m) p = some report' → report.printed <+: report'.printed)) ∧
    (∀ free steps report d, interpret steps (s.limited free) p = some report → ¬ report.Overflows →
      IsGreatest {calls | (s.limited free).Active p calls} d →
      ∀ n, ∃ report', interpret steps (s.limited n) p = some report' ∧ (report'.Overflows ↔ n < d)) :=
  ⟨fun _ _ _ _ le run => ⟨interpret_higher le run, fun _ => prints_higher le run⟩,
    fun _ _ _ _ run fine most n => overflows_iff_lt run fine most n⟩

/-- The program `function f(x) { print(x); if (x) { f(false) } } f(true)`. -/
def callingItselfOnce : Program where
  location := ⟨1, 1⟩
  statements :=
    [.function ⟨⟨1, 1⟩, "f", ["x"], ⟨1, 15⟩,
      [.expression ⟨1, 17⟩ (.call ⟨1, 22⟩ (.identifier ⟨1, 17⟩ "print") [.identifier ⟨1, 23⟩ "x"]),
        .ifElse ⟨1, 27⟩ (.identifier ⟨1, 31⟩ "x")
          (.block ⟨1, 34⟩
            [.expression ⟨1, 36⟩ (.call ⟨1, 37⟩ (.identifier ⟨1, 36⟩ "f") [.boolean ⟨1, 38⟩ false])])
          none]⟩,
      .expression ⟨1, 49⟩ (.call ⟨1, 50⟩ (.identifier ⟨1, 49⟩ "f") [.boolean ⟨1, 51⟩ true])]

/-- A call in a call needs a limit of two. With a lower limit only the first line is printed. -/
theorem interpret_callLimit_once : ∃ low high : Report,
    interpret 40 ((start 8 0).limited 1) callingItselfOnce = some low ∧
    low.Overflows ∧ low.printed = "true\n" ∧
    interpret 40 ((start 8 0).limited 2) callingItselfOnce = some high ∧
    ¬ high.Overflows ∧ high.printed = "true\nfalse\n" ∧
    IsGreatest {calls | ((start 8 0).limited 2).Active callingItselfOnce calls} 2 ∧
    ((start 8 0).limited 2).Prints callingItselfOnce low.printed ∧
    interpret 40 ((start 8 0).limited 3) callingItselfOnce =
      some { high with session := high.session.limited 3 } ∧
    ∀ n, ∃ report, interpret 40 ((start 8 0).limited n) callingItselfOnce = some report ∧
      (report.Overflows ↔ n < 2) := by
  have lowRuns : (interpret 40 ((start 8 0).limited 1) callingItselfOnce).map (fun report =>
      (decide report.Overflows, report.printed)) = some (true, ("true\n" : Text)) := by decide +kernel
  have highRuns : (interpret 40 ((start 8 0).limited 2) callingItselfOnce).map (fun report =>
      (decide report.Overflows, report.printed)) = some (false, ("true\nfalse\n" : Text)) := by decide +kernel
  obtain ⟨low, lowRun, lowShown⟩ := Option.map_eq_some_iff.1 lowRuns
  obtain ⟨high, highRun, highShown⟩ := Option.map_eq_some_iff.1 highRuns
  obtain ⟨overflows, lowPrinted⟩ := Prod.mk.inj lowShown
  obtain ⟨fine, highPrinted⟩ := Prod.mk.inj highShown
  have overflows := of_decide_eq_true overflows
  have fine := of_decide_eq_false fine
  have le : 1 ≤ 2 := by decide
  have greatest : IsGreatest {calls | ((start 8 0).limited 2).Active callingItselfOnce calls} 2 := by
    obtain ⟨calls, many, active⟩ := active_of_overflows le lowRun overflows highRun fine
    have most : calls ≤ 2 := active.le
    have two : calls = 2 := by omega
    exact ⟨two ▸ active, fun _ active => Active.le active⟩
  obtain ⟨higher, exactly⟩ := interpret_callLimit (start 8 0) callingItselfOnce
  exact ⟨low, high, lowRun, overflows, lowPrinted, highRun, fine, highPrinted, greatest,
    ((higher 1 2 40 low le lowRun).2 overflows).1, (higher 2 3 40 high (by decide) highRun).1 fine,
    exactly 2 40 high 2 highRun fine greatest⟩

end Session

end TinyScript
