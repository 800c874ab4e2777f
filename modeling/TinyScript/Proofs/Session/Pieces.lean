import TinyScript.Proofs.Evaluation.Sequence
import TinyScript.Proofs.Guise.Ongoing

namespace TinyScript

open Evaluation

/-- Two programs written as one. -/
def Program.append (p q : Program) : Program := ⟨p.location, p.statements ++ q.statements⟩

/-- What two programs report one after the other, and what they report as one. Only the latest value may differ, when
the second program does not work out any. -/
structure Report.Joins (first second whole : Report) : Prop where
  printed : whole.printed = first.printed ++ second.printed
  ending : whole.ending = second.ending
  session : { whole.session with latest := second.session.latest } = second.session

namespace Session

/-- The program ends with this report. -/
def Answers (s : Session) (p : Program) (r : Report) : Prop := ∃ steps, interpret steps s p = some r

/-- The program ends by a return outside of all calls. -/
def Returns (s : Session) (p : Program) : Prop := ∃ steps v st, (s.begins p).run steps = .done (.returned v) st

variable {s : Session} {p q : Program} {r first second whole : Report} {v : Option Value} {n : Nat}
  {st : State} {o o' : Outcome Completion}

theorem answers_iff : s.Answers p r ↔ ∃ n, s.report? ((s.begins p).run n) = some r := by
  simp only [Answers, interpret_eq]

/-- Only what a run leaves behind is reported of the store. -/
theorem report?_store (store : Store) (latest : Value) :
    Session.report? { s with store := store, latest := latest } o = s.report? o := by
  cases o <;> rfl

theorem finished_of_report? (reported : s.report? o = some r) : o ≠ .unfinished := by
  rintro rfl
  cases reported

/-- The second program runs as it does behind the first one. -/
theorem ongoing_moments (s : Session) (q : Program) (st : State) :
    (Guise.ongoing #[] #[] st.printed False).Moments
      (Session.begins { s with store := st.store, latest := st.latest } q)
      ⟨(s.begins q).context, .execAll none q.statements, st⟩ where
  context := ⟨by rw [Guise.ongoing_scope]; rfl, rfl, rfl, rfl, rfl⟩
  task := .execAll (Guise.Bodies.refl Guise.ongoing_plain _)
  state := ⟨Guise.ongoing_stores_iff.2 (by simp [Store.noted, begins]), by simp [Guise.ongoing, begins], False.elim⟩

theorem joins_of_outcomes (like : (Guise.ongoing #[] #[] st.printed False).Outcomes
      (Guise.ongoing #[] #[] st.printed False).Completions o o')
    (printed : first.printed = st.printed.toList.flatten) :
    Option.Rel (first.Joins · ·) (s.report? o) (s.report? o') := by
  have text {a b : State} (states : (Guise.ongoing #[] #[] st.printed False).States a b) :
      b.printed.toList.flatten = first.printed ++ a.printed.toList.flatten := by
    rw [states.printed, printed, Array.toList_append, List.flatten_append]
    rfl
  have store {a b : State} (states : (Guise.ongoing #[] #[] st.printed False).States a b) : b.store = a.store := by
    rw [Guise.ongoing_stores_iff.1 states.store]
    simp [Store.noted]
  cases like with
  | done same states =>
    obtain rfl := same
    rw [Guise.ongoing_completion]
    exact .some ⟨text states, rfl, by rw [store states]⟩
  | failed errors states =>
    obtain rfl := Guise.ongoing_errors errors
    exact .some ⟨text states, rfl, by rw [store states]⟩
  | unfinished => exact .none

/-- The second program does behind the first one what it does in the session that the first one leaves. -/
theorem joins_behind (s : Session) (q : Program) (st : State) (first : Report)
    (session : first.session = { s with store := st.store, latest := st.latest })
    (printed : first.printed = st.printed.toList.flatten) (k : Nat) :
    Option.Rel (first.Joins · ·) (first.session.report? ((first.session.begins q).run k))
      (s.report? (Moment.run ⟨(s.begins q).context, .execAll none q.statements, st⟩ k)) := by
  rw [session, report?_store]
  exact joins_of_outcomes ((ongoing_moments s q st).run (fun _ _ _ _ => rfl) k) printed

/-- Behind a first program that does not return, the whole program is reported as the second one would be from there. -/
theorem answers_behind (run : (s.begins p).run n = .done (.normal v) st) (nonempty : q.statements ≠ []) :
    s.Answers (p.append q) r ↔
      ∃ k, s.report? (Moment.run ⟨(s.begins q).context, .execAll none q.statements, st⟩ k) = some r := by
  have same : ∀ o, o ≠ .unfinished → ((∃ k, (s.begins (p.append q)).run k = o) ↔
      ∃ k, Moment.run ⟨(s.begins q).context, .execAll none q.statements, st⟩ k = o) := by
    intro o ends
    refine (execAll_append ends run).trans (exists_congr fun k => ?_)
    rw [execAll_last nonempty none]
    rfl
  rw [answers_iff]
  constructor
  · rintro ⟨k, reported⟩
    obtain ⟨m, run⟩ := (same _ (finished_of_report? reported)).1 ⟨k, rfl⟩
    exact ⟨m, run ▸ reported⟩
  · rintro ⟨k, reported⟩
    obtain ⟨m, run⟩ := (same _ (finished_of_report? reported)).2 ⟨k, rfl⟩
    exact ⟨m, run ▸ reported⟩

/-- A program that has ended otherwise does not end by a return. -/
theorem not_returns (run : (s.begins p).run n = .done (.normal v) st) : ¬ s.Returns p := by
  rintro ⟨k, u, st', returned⟩
  have same := Moment.run_unique (s.begins p) (n := n) (k := k) (by rw [run]; nofun) (by rw [returned]; nofun)
  rw [run, returned] at same
  cases same

/-- What comes behind a program that returns or fails is not reached. -/
theorem answers_cut (run : (s.begins p).run n = o) (reported : s.report? o = some r)
    (early : ∀ v st, o ≠ .done (.normal v) st) : s.Answers (p.append q) r := by
  subst run
  refine answers_iff.2 ⟨n, ?_⟩
  rw [← reported]
  exact congrArg s.report? (execAll_cut (finished_of_report? reported) early)

/-- Submitting a program in pieces is the same as submitting it whole. If the first piece does not fail and does not
return outside of all calls, the second piece ends exactly if the whole program does, and the whole program prints what
the pieces print one after the other, ends as the second piece does and leaves the same store. If the first piece
fails or returns, the whole program is reported as the first piece alone. -/
theorem answers_append (s : Session) (p q : Program) (nonempty : q.statements ≠ []) (first : Report)
    (answers : s.Answers p first) :
    (first.ending.isFailed = false → ¬ s.Returns p →
      (∀ second, first.session.Answers q second → ∃ whole, s.Answers (p.append q) whole ∧ first.Joins second whole) ∧
      ∀ whole, s.Answers (p.append q) whole → ∃ second, first.session.Answers q second ∧ first.Joins second whole) ∧
    (first.ending.isFailed = true ∨ s.Returns p → s.Answers (p.append q) first) := by
  obtain ⟨n, reported⟩ := answers_iff.1 answers
  cases run : (s.begins p).run n with
  | unfinished =>
    rw [run] at reported
    cases reported
  | failed error st =>
    rw [run] at reported
    refine ⟨fun fine => ?_, fun _ => answers_cut run reported fun _ _ => nofun⟩
    cases reported
    cases fine
  | done completion st =>
    rw [run] at reported
    cases completion with
    | returned v =>
      exact ⟨fun _ straight => absurd ⟨n, v, st, run⟩ straight, fun _ => answers_cut run reported fun _ _ => nofun⟩
    | normal v =>
      have fine : first.ending.isFailed = false := by
        cases reported
        rfl
      have joins := joins_behind s q st first (by cases reported; rfl) (by cases reported; rfl)
      refine ⟨fun _ _ => ⟨fun second later => ?_, fun whole all => ?_⟩, fun early => ?_⟩
      · obtain ⟨k, reported⟩ := answers_iff.1 later
        have both := joins k
        rw [reported] at both
        obtain ⟨whole, all, joined⟩ := exists_of_rel_left both
        exact ⟨whole, (answers_behind run nonempty).2 ⟨k, all⟩, joined⟩
      · obtain ⟨k, reported⟩ := (answers_behind run nonempty).1 all
        have both := joins k
        rw [reported] at both
        obtain ⟨second, later, joined⟩ := exists_of_rel_right both
        exact ⟨second, answers_iff.2 ⟨k, later⟩, joined⟩
      · rcases early with failed | returned
        · rw [fine] at failed
          cases failed
        · exact absurd returned (not_returns run)

/-- The program `var n = 0; function next() { n = n + 1; return n; } print(next());`. -/
def counting : Program where
  location := ⟨1, 1⟩
  statements :=
    [.var ⟨1, 1⟩ "n" (some (.number ⟨1, 9⟩ 0)),
      .function ⟨⟨1, 12⟩, "next", [], ⟨1, 28⟩,
        [.expression ⟨1, 30⟩ (.assign ⟨1, 30⟩ "n"
          (.binary ⟨1, 36⟩ .add (.identifier ⟨1, 34⟩ "n") (.number ⟨1, 38⟩ 1))),
          .returns ⟨1, 41⟩ (some (.identifier ⟨1, 48⟩ "n"))]⟩,
      .expression ⟨1, 53⟩ (.call ⟨1, 58⟩ (.identifier ⟨1, 53⟩ "print")
        [.call ⟨1, 63⟩ (.identifier ⟨1, 59⟩ "next") []])]

/-- The program `print(next()); next();`. -/
def countingOn : Program where
  location := ⟨1, 1⟩
  statements :=
    [.expression ⟨1, 1⟩ (.call ⟨1, 6⟩ (.identifier ⟨1, 1⟩ "print") [.call ⟨1, 11⟩ (.identifier ⟨1, 7⟩ "next") []]),
      .expression ⟨1, 16⟩ (.call ⟨1, 20⟩ (.identifier ⟨1, 16⟩ "next") [])]

/-- The program `return 7;`. -/
def returning : Program := ⟨⟨1, 1⟩, [.returns ⟨1, 1⟩ (some (.number ⟨1, 8⟩ 7))]⟩

/-- A counter goes on in the second piece, and behind a return it is not reached. -/
theorem answers_append_counting : ∃ first second whole returned : Report,
    (start 8 0).Answers counting first ∧ first.session.Answers countingOn second ∧
    (start 8 0).Answers (counting.append countingOn) whole ∧ first.Joins second whole ∧
    whole.printed = "1\n2\n" ∧ whole.ending.value? = some (.number 3) ∧
    (start 8 0).Answers returning returned ∧ (start 8 0).Answers (returning.append countingOn) returned := by
  have runs : (interpret 40 (start 8 0) counting).map (fun r => (r.printed, r.ending.isFailed)) =
      some (("1\n" : Text), false) := by decide +kernel
  obtain ⟨first, run, shown⟩ := Option.map_eq_some_iff.1 runs
  obtain ⟨printed, fine⟩ := Prod.mk.inj shown
  have normal : (match ((start 8 0).begins counting).run 40 with
      | .done (.normal _) _ => true
      | _ => false) = true := by decide +kernel
  have straight : ¬ (start 8 0).Returns counting := by
    split at normal
    · next ended => exact not_returns ended
    · cases normal
  have runs' : ((interpret 40 (start 8 0) counting).bind fun r => interpret 40 r.session countingOn).map
      (fun r => (r.printed, r.ending.value?)) = some (("2\n" : Text), some (.number 3)) := by decide +kernel
  rw [run, Option.bind_some] at runs'
  obtain ⟨second, run', shown'⟩ := Option.map_eq_some_iff.1 runs'
  obtain ⟨printed', value⟩ := Prod.mk.inj shown'
  obtain ⟨whole, all, joined⟩ := ((answers_append (start 8 0) counting countingOn (List.cons_ne_nil _ _) first
    ⟨40, run⟩).1 fine straight).1 second ⟨40, run'⟩
  have ends : (interpret 40 (start 8 0) returning).isSome := by decide +kernel
  obtain ⟨returned, stop⟩ := Option.isSome_iff_exists.1 ends
  have early : (match ((start 8 0).begins returning).run 40 with
      | .done (.returned _) _ => true
      | _ => false) = true := by decide +kernel
  have returns : (start 8 0).Returns returning := by
    split at early
    · next ended => exact ⟨40, _, _, ended⟩
    · cases early
  have cut := (answers_append (start 8 0) returning countingOn (List.cons_ne_nil _ _) returned ⟨40, stop⟩).2
    (.inr returns)
  exact ⟨first, second, whole, returned, ⟨40, run⟩, ⟨40, run'⟩, all, joined,
    by rw [joined.printed, printed, printed']; rfl, by rw [joined.ending, value], ⟨40, stop⟩, cut⟩

end Session

end TinyScript
