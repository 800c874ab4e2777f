import TinyScript.Proofs.Guise.Parsers
import TinyScript.Proofs.Guise.Sessions
import TinyScript.Proofs.Session.Outcomes

namespace TinyScript

namespace Source

/-- The tokens are the same up to their places. -/
def SameTokens (a b : Source) : Prop :=
  List.Forall₂ (fun t t' => t'.kind = t.kind ∧ t'.literal = t.literal) a.closed b.closed

/-- Tokens stand there that are at the same position in their sources. -/
def Corresponds (a b : Source) (l l' : Location) : Prop :=
  ∃ (i : Nat) (t t' : Token), a.closed[i]? = some t ∧ b.closed[i]? = some t' ∧ t.location = l ∧ t'.location = l'

end Source

/-- What a program with another layout reports: all is the same, but for the lines of diagnostics. -/
structure Report.Relaid (a b : Source) (r r' : Report) : Prop where
  printed : r'.printed = r.printed
  value : r'.ending.value?.map r'.session.inspect = r.ending.value?.map r.session.inspect
  dump : r'.session.dump = r.session.dump
  rejected : r'.ending.isRejected = r.ending.isRejected
  failed : r'.ending.isFailed = r.ending.isFailed
  diagnostics : List.Forall₂ (Diagnostic.Moved (a.Corresponds b)) r.ending.diagnostics r'.ending.diagnostics

namespace Guise

variable {a b : Source} {later : Float} {r r' : Report}

/-- The places of tokens stand for those of the same tokens in another source. -/
def relaid (a b : Source) (later : Float) : Guise where
  place := a.Corresponds b
  name := Eq
  name_unique := Eq.congr
  older := .empty
  printed := #[]
  sameLatest := True
  time _ := later

theorem Errors.diagnostic {g : Guise} {e e' : RuntimeError} (errors : g.Errors e e') (names : ∀ a, g.name a a) :
    Diagnostic.Moved g.place e.diagnostic e'.diagnostic :=
  ⟨rfl, errors.line, rfl, congrArg Fault.message (errors.fault.eq names)⟩

theorem relaid_tokens (later : Float) (same : a.SameTokens b) : (relaid a b later).place a.finish b.finish ∧
    List.Forall₂ (relaid a b later).Tokens a.tokens b.tokens := by
  have lengths : a.tokens.length = b.tokens.length := by simpa [Source.closed] using same.length_eq
  constructor
  · exact ⟨a.tokens.length, .finish a.finish, .finish b.finish, by simp [Source.closed],
      by simp [Source.closed, lengths], rfl, rfl⟩
  · refine List.forall₂_iff_get.2 ⟨lengths, fun i less less' => ?_⟩
    have inside : i < a.closed.length := by simp [Source.closed]; omega
    have inside' : i < b.closed.length := by simp [Source.closed]; omega
    have here : a.closed.get ⟨i, inside⟩ = a.tokens.get ⟨i, less⟩ := List.getElem_append_left less
    have there : b.closed.get ⟨i, inside'⟩ = b.tokens.get ⟨i, less'⟩ := List.getElem_append_left less'
    obtain ⟨kind, literal⟩ := (List.forall₂_iff_get.1 same).2 i inside inside'
    rw [here, there] at kind literal
    refine ⟨kind, literal, i, _, _, ?_, ?_, rfl, rfl⟩
    · rw [← here]
      exact List.getElem?_eq_getElem inside
    · rw [← there]
      exact List.getElem?_eq_getElem inside'

theorem Reports.relaid (like : (relaid a b later).Reports r r') : Report.Relaid a b r r' where
  printed := like.printed
  value := like.inspect
  dump := like.session.dump fun _ => rfl
  rejected := like.ending.isRejected
  failed := like.ending.isFailed
  diagnostics := by
    have ending := like.ending
    generalize r.ending = e at ending
    generalize r'.ending = e' at ending
    cases ending with
    | failed errors => exact .cons (errors.diagnostic fun _ => rfl) .nil
    | finished => exact .nil

end Guise

namespace Session

open Guise

variable {a b : Text}

/-- Sources with the same tokens are the same program at other places, or have the same errors. -/
theorem readProgram_relaid (same : (Source.ofText a).SameTokens (Source.ofText b)) (later : Float)
    (fine : (Source.ofText a).diagnostics = []) (fine' : (Source.ofText b).diagnostics = []) :
    (∃ p p', readProgram a = .ok p ∧ readProgram b = .ok p' ∧
      (relaid (.ofText a) (.ofText b) later).Bodies p.statements p'.statements) ∨
    ∃ ds ds', readProgram a = .error ds ∧ readProgram b = .error ds' ∧
      List.Forall₂ (Diagnostic.Moved ((Source.ofText a).Corresponds (.ofText b))) ds ds' := by
  obtain ⟨finish, tokens⟩ := relaid_tokens later same
  obtain ⟨body, errors⟩ := ofTokens (fun _ => rfl) finish tokens
  unfold readProgram
  rw [if_neg (fun found => found fine), if_neg (fun found => found fine')]
  dsimp only
  generalize (Program.ofTokens _ (Source.ofText a).finish).2 = ds at errors
  generalize (Program.ofTokens _ (Source.ofText b).finish).2 = ds' at errors
  cases errors with
  | nil => exact .inl ⟨_, _, rfl, rfl, body⟩
  | cons first more => exact .inr ⟨_, _, rfl, rfl, .cons first more⟩

/-- Layout does not change meaning. Two texts that are made of the same tokens, run in new sessions whatever their names
are, either both do not end, or both are reported the same, and each diagnostic is at the line of the same token. -/
theorem run_sameTokens (a b filename filename' : Text) (limit : Nat) (now later : Float)
    (fine : (Source.ofText a).diagnostics = []) (fine' : (Source.ofText b).diagnostics = [])
    (same : (Source.ofText a).SameTokens (Source.ofText b))
    (ignores : ∀ p, readProgram a = .ok p → (start limit now).IgnoresClock p) (steps : Nat) :
    Option.Rel (Report.Relaid (.ofText a) (.ofText b)) (run steps (start limit now) a filename)
      (run steps (start limit later) b filename') := by
  let g := relaid (.ofText a) (.ofText b) later
  have sessions : g.Sessions (start limit now) (start limit later) := .start rfl (fun _ _ => rfl) rfl
  rw [run_eq, run_eq]
  rcases readProgram_relaid same later fine fine' with ⟨p, p', first, second, program⟩ | ⟨ds, ds', first, second, moved⟩
  · rw [first, second]
    have named : g.Sessions { start limit now with filenames := (start limit now).filenames.insert filename }
        { start limit later with filenames := (start limit later).filenames.insert filename' } :=
      ⟨sessions.store, sessions.globals, sessions.callLimit, sessions.time⟩
    exact rel_imp (named.interpret rfl program (timely_of_ignoresClock (ignores p first)) steps)
      fun _ _ => Reports.relaid
  · rw [first, second]
    exact .some ⟨rfl, rfl, sessions.dump fun _ => rfl, rfl, rfl, moved⟩

/-- A program that prints an array and then fails, on one line. -/
def onOneLine : Text := "var x = [1, 2]; print(x); y;"

/-- The same tokens on four lines. -/
def onFourLines : Text := "var x=[1,2];\n\nprint (x) // all of it\n;y ;"

/-- Both layouts print the same and fail, in line 1 and in line 4. -/
theorem run_sameTokens_lines : ∃ r r' : Report,
    run 60 (start 8 0) onOneLine "one" = some r ∧ run 60 (start 8 1) onFourLines "four" = some r' ∧
    r.printed = "[1, 2]\n" ∧ r.ending.diagnostics.map (·.line) = [1] ∧ r'.ending.diagnostics.map (·.line) = [4] ∧
    Report.Relaid (.ofText onOneLine) (.ofText onFourLines) r r' := by
  have runs : (run 60 (start 8 0) onOneLine "one").map (fun r => (r.printed, r.ending.diagnostics.map (·.line))) =
      some (("[1, 2]\n" : Text), [1]) := by decide +kernel
  obtain ⟨r, run, shown⟩ := Option.map_eq_some_iff.1 runs
  obtain ⟨printed, line⟩ := Prod.mk.inj shown
  have runs' : (Session.run 60 (start 8 1) onFourLines "four").map (fun r => r.ending.diagnostics.map (·.line)) =
      some [4] := by decide +kernel
  obtain ⟨r', run', line'⟩ := Option.map_eq_some_iff.1 runs'
  have same : (Source.ofText onOneLine).SameTokens (.ofText onFourLines) := by
    unfold Source.SameTokens
    decide +kernel
  have silent : (readProgram onOneLine).toOption.all fun p =>
      ((start 8 0).begins p).all (fun m => !m.task.callsClock) 60 := by decide +kernel
  have both := run_sameTokens onOneLine onFourLines "one" "four" 8 0 1 (by decide +kernel) (by decide +kernel) same
    (fun p read calls m within => by
      rw [read] at silent
      simpa using Moment.all_within within silent) 60
  rw [run, run'] at both
  exact ⟨r, r', run, run', printed, line, line', Option.rel_some_some.1 both⟩

end Session

end TinyScript
