import TinyScript.Proofs.Session.Requests

namespace TinyScript

open Store

variable {before later : Store} {s : Session} {held : List Value} {c d : Caller} {request : Request}
  {requests : List Request} {answer : Answer} {log : List (Request × Answer)} {report : Report} {steps calls : Nat}
  {m : Moment}

/-- A program begins in the region of the session. -/
theorem Sound.begins (sound : Sound before s held) (p : Program) :
    (s.begins p).Contained fun n => ¬ before.Has n :=
  Session.begins_contained sound.healthy sound.globals p

theorem Sound.interpret_edits (sound : Sound before s held) {p : Program}
    (run : s.interpret steps p = some report) : Edits (fun n => ¬ before.Has n) s.store report.session.store :=
  (Session.interpret_stayed sound.healthy sound.globals run).edits

theorem Sound.run_edits (sound : Sound before s held) {source filename : Text}
    (run : s.run steps source filename = some report) :
    Edits (fun n => ¬ before.Has n) s.store report.session.store := by
  rw [Session.run_eq] at run
  split at run
  · cases run
    exact .refl
  · exact (sound.named (s.filenames.insert filename)).interpret_edits run

namespace Caller

theorem ask_edits (sound : Sound before c.session c.held) (asked : c.ask steps request = some (answer, d))
    (stays : request ≠ .reset) : Edits (fun n => ¬ before.Has n) c.session.store d.session.store := by
  cases request with
  | run source filename =>
    obtain ⟨report, run, same⟩ := Option.map_eq_some_iff.1 asked
    cases same
    exact sound.run_edits run
  | interpret p =>
    obtain ⟨report, run, same⟩ := Option.map_eq_some_iff.1 asked
    cases same
    exact sound.interpret_edits run
  | get | dump =>
    cases asked
    exact .refl
  | reset => exact absurd rfl stays

theorem talk_edits (reached : Reached before c.session c.held) (talked : c.talk steps requests = some (log, d))
    (stays : Request.reset ∉ requests) : Edits (fun n => ¬ before.Has n) c.session.store d.session.store := by
  induction requests generalizing c log with
  | nil =>
    cases talked
    exact .refl
  | cons request more ih =>
    obtain ⟨stay, stays⟩ := not_or.1 fun mem => stays (List.mem_cons.2 mem)
    obtain ⟨answer, next, rest, asked, later, rfl⟩ := talk_cons.1 talked
    have first := ask_edits reached.sound asked (Ne.symm stay)
    exact first.trans (ih (ask_reached reached asked (Ne.symm stay)) later stays)

/-- The stores that a session comes to before it is reset: those behind its answers, and those at the moments of a
program that runs then, whether or not it ends. -/
inductive ComesTo (c : Caller) : Store → Prop
  | answered {steps : Nat} {requests : List Request} {log : List (Request × Answer)} {d : Caller} :
    c.talk steps requests = some (log, d) → Request.reset ∉ requests → ComesTo c d.session.store
  | running {steps calls : Nat} {requests : List Request} {log : List (Request × Answer)} {d : Caller} {p : Program}
    {m : Moment} : c.talk steps requests = some (log, d) → Request.reset ∉ requests →
    Within (d.session.begins p) calls m → ComesTo c m.state.store

theorem ComesTo.edits (reached : Reached before c.session c.held) (comes : c.ComesTo later) :
    Edits (fun n => ¬ before.Has n) c.session.store later := by
  cases comes with
  | answered talked stays => exact talk_edits reached talked stays
  | @running _ _ _ _ _ p _ talked stays within =>
    have begins := (talk_reached reached talked stays).sound.begins p
    exact (talk_edits reached talked stays).trans (begins.within within).2

end Caller

/-- There is a value at an index of an array, or under a key of an object. -/
inductive Store.Entry (s : Store) : Value → Value → Value → Prop
  | element {id : ArrayId} {index v : Value} {k : Nat} :
    index.position? = some k → (s.elements id)[k]? = some v → Entry s (.array id) index v
  | entry {id : ObjectId} {key : Packed} {v : Value} :
    s.Has (.object id) → (s.entries id).get? key.text = some v → Entry s (.object id) (.string key) v

namespace Store

variable {s s' : Store} {place index v : Value}

theorem Entry.at {st : State} (entry : st.store.Entry place index v) (line : Nat) :
    place.at line index st = .done v st := by
  cases entry with
  | @element id _ _ _ position found =>
    show Outcome.done ((index.position?.bind fun k => (st.store.elements id)[k]?).getD .null) st = _
    rw [position, Option.bind_some, found, Option.getD_some]
  | @entry id key _ has found =>
    show Outcome.done (((st.store.entries id).get? key.text).getD .null) st = _
    rw [found, Option.getD_some]

theorem Keeps.entry (keeps : s.Keeps s') (entry : s.Entry place index v) :
    s'.Entry place index v := by
  cases entry with
  | @element id index v k position found =>
    refine .element position ?_
    rw [← Array.getElem?_toList] at found ⊢
    obtain ⟨more, same⟩ := keeps.elements id
    rw [← same, List.getElem?_append_left (List.getElem?_eq_some_iff.1 found).1, found]
  | entry there found => exact .entry (keeps.has _ there) (keeps.entries _ there ▸ found)

end Store

/-- Until a session is reset every array has the elements that it had and maybe others behind them, every object has the
entries and every function the parameters, the body and the scope that it had. What is found at an index or under a key
is found there at every later time. -/
theorem Reached.entries_last (reached : Reached before s held) (comes : Caller.ComesTo ⟨s, held⟩ later) :
    s.store.Keeps later ∧ ∀ place index v, s.store.Entry place index v →
      ∀ line st, st.store = later → place.at line index st = .done v st := by
  have keeps := Edits.keeps (comes.edits reached)
  refine ⟨keeps, fun place index v entry line st same => Entry.at ?_ line⟩
  rw [same]
  exact keeps.entry entry

/-- An array that is bound, and held by an object. -/
def sharing : Text := "var a = [true]; var o = {k: a}; o"

/-- The first element of an array is still the first one when another one has been pushed. -/
theorem Reached.entries_last_push : ∃ s held log d, Reached .empty s held ∧
    Caller.talk 30 ⟨s, held⟩ [.run "push(o[\"k\"], false); x" "more"] = some (log, d) ∧
    s.store.elements 0 = #[.boolean true] ∧ d.session.store.elements 0 = #[.boolean true, .boolean false] ∧
    s.store.Keeps d.session.store ∧
    ∀ line st, st.store = d.session.store → (Value.array 0).at line (.number 0) st = .done (.boolean true) st := by
  have runs : ((Session.start 8 0).run 30 sharing "main").map (fun report =>
      (report.session.store.elements 0, (Caller.talk 30 ⟨report.session, report.ending.value?.toList⟩
        [.run "push(o[\"k\"], false); x" "more"]).map fun said => said.2.session.store.elements 0)) =
      some (#[.boolean true], some #[.boolean true, .boolean false]) := by decide +kernel
  obtain ⟨report, run, shown⟩ := Option.map_eq_some_iff.1 runs
  obtain ⟨first, shown⟩ := Prod.mk.inj shown
  obtain ⟨⟨log, d⟩, talked, second⟩ := Option.map_eq_some_iff.1 shown
  have reached := (Reached.started 8 0).ran run
  rw [List.append_nil] at reached
  have zero : (Value.number 0).position? = some 0 := by decide +kernel
  obtain ⟨keeps, lasts⟩ := reached.entries_last (.answered talked (by simp))
  have entry : report.session.store.Entry (.array 0) (.number 0) (.boolean true) :=
    .element zero (by rw [first]; rfl)
  exact ⟨report.session, _, log, d, reached, talked, first, second, keeps, lasts _ _ _ entry⟩

end TinyScript
