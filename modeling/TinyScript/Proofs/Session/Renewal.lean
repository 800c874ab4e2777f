import TinyScript.Proofs.Guise.Sessions
import TinyScript.Proofs.Session.Permanence

namespace TinyScript

open Store

variable {before later : Store} {s s' : Session} {held : List Value} {c c' : Caller} {request : Request}
  {requests : List Request} {steps : Nat} {v : Value}

/-- The program that is asked for. -/
def Request.program? : Request → Option Program
  | run source _ => (Session.readProgram source).toOption
  | interpret p => some p
  | _ => none

/-- None of the programs that are asked for calls the clock. -/
def Caller.IgnoresClock (steps : Nat) (c : Caller) : List Request → Prop
  | [] => True
  | request :: more => (∀ p, request.program? = some p → c.session.IgnoresClock p) ∧
      ∀ answer next, c.ask steps request = some (answer, next) → next.IgnoresClock steps more

/-- The same, checked by running all that is asked for. -/
def Caller.silent (steps : Nat) (c : Caller) : List Request → Bool
  | [] => true
  | request :: more => request.program?.all (fun p => (c.session.begins p).all (fun m => !m.task.callsClock) steps) &&
      (c.ask steps request).all fun said => said.2.silent steps more

theorem Caller.ignoresClock_of_silent (silent : c.silent steps requests = true) : c.IgnoresClock steps requests := by
  induction requests generalizing c with
  | nil => trivial
  | cons request more ih =>
    obtain ⟨first, later⟩ := Bool.and_eq_true_iff.1 silent
    constructor
    · intro p asked calls m within
      rw [asked, Option.all_some] at first
      simpa using Moment.all_within within first
    · intro answer next asked
      rw [asked, Option.all_some] at later
      exact ih later

namespace Guise

/-- Something else came first, but is not noted for a reset any more, and the clock always shows the same. -/
def renewed (older : Store) (time : Float) : Guise where
  place := Eq
  name := Eq
  name_unique := Eq.congr
  older := { older with created := #[], captured := #[] }
  printed := #[]
  sameLatest := True
  time _ := time

variable {g : Guise} {r r' : Report} {older : Store} {time : Float}

theorem Sessions.shown (like : g.Sessions s s') (v : Value) : s'.shown (g.value v) = s.shown v := by
  have display : s'.display (g.value v) = s.display v := like.store.display v
  have inspect : s'.inspect (g.value v) = s.inspect v := like.store.inspect v
  unfold Session.shown
  rw [kind_value, display, inspect]

theorem Reports.result (like : (renewed older time).Reports r r') : r'.result = r.result := by
  have diagnostics : r'.ending.diagnostics = r.ending.diagnostics := by
    have ending := like.ending
    generalize r.ending = e at ending
    generalize r'.ending = e' at ending
    cases ending with
    | failed errors => rw [errors.eq (fun _ _ same => same) fun _ => rfl]
    | finished => rfl
  have shown : r'.ending.value?.map r'.session.shown = r.ending.value?.map r.session.shown := by
    rw [like.ending.value?, Option.map_map]
    exact congrArg (Option.map · _) (funext like.session.shown)
  have printed : r'.printed = r.printed := like.printed
  unfold Report.result
  rw [shown, printed, diagnostics, like.ending.isRejected, like.ending.isFailed]

/-- The same answer, from sessions that are alike. -/
def Answers (g : Guise) (a b : Answer × Caller) : Prop := b.1 = a.1 ∧ g.Sessions a.2.session b.2.session

/-- A program that is run in sessions that are alike is answered the same, whatever the callers hold. -/
theorem Sessions.told (like : (renewed older time).Sessions s s') {p : Program} (ignores : s.IgnoresClock p)
    (steps : Nat) (c c' : Caller) :
    Option.Rel (renewed older time).Answers ((s.interpret steps p).map c.told)
      ((s'.interpret steps p).map c'.told) := by
  have same : (renewed older time).Bodies p.statements p.statements := Bodies.refl ⟨fun _ => rfl, fun _ => rfl⟩ _
  have reports := like.interpret rfl same (timely_of_ignoresClock ignores) steps
  generalize s.interpret steps p = o at reports
  generalize s'.interpret steps p = o' at reports
  cases reports with
  | some reports => exact .some ⟨congrArg Answer.result reports.result, reports.session⟩
  | none => exact .none

/-- Sessions that are alike answer the same and are alike again. -/
theorem Sessions.ask (like : (renewed older time).Sessions c.session c'.session)
    (ignores : ∀ p, request.program? = some p → c.session.IgnoresClock p) (stays : request ≠ .reset) (steps : Nat) :
    Option.Rel (renewed older time).Answers (c.ask steps request) (c'.ask steps request) := by
  cases request with
  | run source filename =>
    show Option.Rel _ ((c.session.run steps source filename).map c.told) ((c'.session.run steps source filename).map _)
    rw [Session.run_eq, Session.run_eq]
    cases read : Session.readProgram source with
    | error diagnostics => exact .some ⟨rfl, like⟩
    | ok p =>
      have named : (renewed older time).Sessions
          { c.session with filenames := c.session.filenames.insert filename }
          { c'.session with filenames := c'.session.filenames.insert filename } :=
        ⟨like.store, like.globals, like.callLimit, like.time⟩
      have ignores : c.session.IgnoresClock p := ignores p (by rw [Request.program?, read]; rfl)
      exact named.told ignores steps c c'
  | interpret p => exact like.told (ignores p rfl) steps c c'
  | get name =>
    have found : c'.session.get? name = (c.session.get? name).map (renewed older time).value := by
      rw [Session.get?, like.globals]
      exact like.store.lookup rfl c.session.globals
    refine .some ⟨?_, like⟩
    dsimp only
    rw [found, Option.map_map]
    exact congrArg (fun shown => Answer.value (Option.map shown _)) (funext like.shown)
  | dump => exact .some ⟨congrArg Answer.lines (like.dump fun _ => rfl), like⟩
  | reset => exact absurd rfl stays

/-- All answers are the same. -/
theorem Sessions.answers (like : (renewed older time).Sessions c.session c'.session)
    (ignores : c.IgnoresClock steps requests) (stays : Request.reset ∉ requests) :
    c'.answers steps requests = c.answers steps requests := by
  induction requests generalizing c c' with
  | nil => rfl
  | cons request more ih =>
    obtain ⟨stay, stays⟩ := not_or.1 fun mem => stays (List.mem_cons.2 mem)
    obtain ⟨ignores, later⟩ := ignores
    have answers := like.ask ignores (Ne.symm stay) steps
    rw [Caller.answers_cons, Caller.answers_cons]
    generalize c.ask steps request = o at answers later
    generalize c'.ask steps request = o' at answers
    cases answers with
    | none => rfl
    | @some a b both =>
      obtain ⟨same, like⟩ := both
      rw [Option.bind_some, Option.bind_some, same, ih like (later a.1 a.2 rfl) stays]

/-- A session that has been reset is a new one in another guise. -/
theorem Sessions.renewed (s : Session) (held : List Value) (later : Float) :
    (Guise.renewed (s.teardown held) s.time).Sessions (.start s.callLimit later) (s.reset held) := by
  obtain ⟨globals, store⟩ := (Stores.bottom (Guise.renewed (s.teardown held) s.time)).newGlobals fun _ _ => rfl
  exact ⟨store, globals, rfl, rfl⟩

end Guise

/-- What is older than the session stays as it is, whatever the session comes to. -/
theorem Sound.agrees (sound : Sound before s held) (edits : Edits (fun n => ¬ before.Has n) s.store later) :
    Agrees before.Has s.store later where
  closed n m old edge := by
    unfold Refers at edge
    rw [sound.edges_eq n old] at edge
    exact sound.closed n m old edge
  elements id old := Array.toList_inj.1 ((Edits.grows edits sound.healthy).held_eq (.array id) fun new => new old)
  entries id old := (Edits.keeps edits).entries id (sound.has _ old)
  functionText id old := by
    have there : id < s.store.closures.size := sound.has _ old
    unfold functionText
    rw [Array.getElem?_eq_getElem there, (Edits.keeps edits).closures id _ (Array.getElem?_eq_getElem there)]

theorem Edits.aggregateCount_le {region : Node → Prop} {store : Store} (edits : Edits region store later) :
    store.aggregateCount ≤ later.aggregateCount := by
  have arrays : store.arrays.size ≤ later.arrays.size := by
    by_contra less
    exact absurd (Edits.has edits (.array later.arrays.size) (Nat.not_le.1 less)) (Nat.lt_irrefl _)
  have objects : store.objects.size ≤ later.objects.size := by
    by_contra less
    exact absurd (Edits.has edits (.object later.objects.size) (Nat.not_le.1 less)) (Nat.lt_irrefl _)
  unfold aggregateCount
  omega

/-- What the caller holds when a session is reset reads the same ever after. -/
theorem Reached.reset_separates (reached : Reached before s held) (comes : Caller.ComesTo ⟨s.reset held, held⟩ later)
    (mem : v ∈ held) :
    later.display v = (s.reset held).display v ∧ later.inspect v = (s.reset held).inspect v := by
  have edits := comes.edits reached.reset
  have agrees := reached.reset.sound.agrees edits
  have old (n : Node) (node : v.node? = some n) : (s.teardown held).Has n :=
    ((s.teardown_shrinks held).has n).2 (reached.sound.holds v mem n node)
  have same := agrees.whole_text (Edits.aggregateCount_le edits) old
  exact ⟨same false, same true⟩

/-- A session that has been reset answers every request like a new one with the same limit, as long as no program calls
the clock. What the caller holds from before reads the same behind all of them, and while any further program runs. -/
theorem Reached.reset_anew (reached : Reached before s held) (later : Float) (steps : Nat) (requests : List Request)
    (ignores : (Caller.start s.callLimit later).IgnoresClock steps requests) (stays : Request.reset ∉ requests) :
    Caller.answers steps ⟨s.reset held, held⟩ requests = (Caller.start s.callLimit later).answers steps requests ∧
      ∀ store, Caller.ComesTo ⟨s.reset held, held⟩ store → ∀ v ∈ held,
        store.display v = (s.reset held).display v ∧ store.inspect v = (s.reset held).inspect v :=
  ⟨(Guise.Sessions.renewed s held later).answers ignores stays, fun _ comes _ => reached.reset_separates comes⟩

/-- Requests that depend on what is bound and on what has been created. -/
def lookingAround : List Request :=
  [.run "push(a, false);" "early", .run "var b = [true]; push(b, b); print(len(b)); b" "late", .get "b", .dump]

/-- A session in which a builtin has been replaced, and the caller holds the array that it has been replaced with. -/
theorem Reached.reset_anew_replaced : ∃ s, Reached .empty s [.array 0] ∧ s.get? "len" = some (.array 0) ∧
    Caller.answers 40 ⟨s.reset [.array 0], [.array 0]⟩ lookingAround =
      (Caller.start s.callLimit 1).answers 40 lookingAround ∧
    ∀ store, Caller.ComesTo ⟨s.reset [.array 0], [.array 0]⟩ store → ∀ v ∈ [Value.array 0],
      store.display v = (s.reset [.array 0]).display v ∧ store.inspect v = (s.reset [.array 0]).inspect v := by
  have runs : ((Session.start 8 0).run 30 "var a = [null]; var len = a; a" "main").map (fun report =>
      (report.ending.value?, report.session.get? "len", report.session.callLimit)) =
      some (some (.array 0), some (.array 0), 8) := by decide +kernel
  obtain ⟨report, run, shown⟩ := Option.map_eq_some_iff.1 runs
  obtain ⟨value, shown⟩ := Prod.mk.inj shown
  obtain ⟨replaced, limit⟩ := Prod.mk.inj shown
  have reached := (Reached.started 8 0).ran run
  rw [value] at reached
  have silent : (Caller.start report.session.callLimit 1).silent 40 lookingAround = true := by
    rw [limit]
    decide +kernel
  exact ⟨report.session, reached, replaced,
    reached.reset_anew 1 40 lookingAround (Caller.ignoresClock_of_silent silent) (by simp [lookingAround])⟩

end TinyScript
