import TinyScript.Proofs.Session.CallLimit
import TinyScript.Proofs.Guise.Scripts

namespace TinyScript

/-- The names that are bound when a session begins. -/
def Session.globalNames : List Text := "console" :: Builtin.globals.map (·.name)

/-- Running the program does not call the clock. -/
def Session.IgnoresClock (s : Session) (p : Program) : Prop :=
  ∀ calls m, Within (s.begins p) calls m → m.task.callsClock = false

/-- The error of a run that has failed. -/
def Ending.error? : Ending → Option RuntimeError
  | .failed error => some error
  | _ => none

namespace Guise

variable (g : Guise)

/-- The same session in another guise. The names of files and the latest value do not matter to what is run in it. -/
structure Sessions (s s' : Session) : Prop where
  store : g.Stores s.store s'.store
  globals : s'.globals = g.scope s.globals
  callLimit : s'.callLimit = s.callLimit
  time : s'.time = g.time s.time

/-- The same ending of a program that has run. -/
inductive Endings : Ending → Ending → Prop
  | failed {e e' : RuntimeError} : g.Errors e e' → Endings (.failed e) (.failed e')
  | finished (v : Option Value) : Endings (.finished v) (.finished (v.map g.value))

/-- The same report in another guise. -/
structure Reports (r r' : Report) : Prop where
  ending : g.Endings r.ending r'.ending
  printed : r'.printed = g.printed.toList.flatten ++ r.printed
  session : g.Sessions r.session r'.session
  latest : g.sameLatest → r'.session.latest = g.value r.session.latest

variable {g} {s s' : Session} {p p' : Program} {o o' : Outcome Completion} {r r' : Report} {limit : Nat}
  {now later : Float}

theorem Stores.bottom (g : Guise) : g.Stores .empty g.older := by
  have none {α β : Type} {R : α → β → Prop} (older : Array β) : Stacked R older #[] older :=
    ⟨rfl, fun i => by simp [Option.rel_none_none]⟩
  exact ⟨none _, none _, none _, none _, by simp [Store.empty], by simp [Store.empty]⟩

theorem Stores.defineBuiltins {t t' : Store} (like : g.Stores t t') (id : ScopeId) (which : List Builtin)
    (names : ∀ w ∈ which, g.name w.name w.name) :
    g.Stores (which.foldl (fun t w => t.define id w.name (.builtin w)) t)
      (which.foldl (fun t w => t.define (g.scope id) w.name (.builtin w)) t') := by
  induction which generalizing t t' with
  | nil => exact like
  | cons w which ih =>
    obtain ⟨name, names⟩ := List.forall_mem_cons.1 names
    exact ih (like.define name id (.builtin w)) names

/-- An object is bound under the same entries. -/
theorem Stores.defineObject {t t' : Store} (like : g.Stores t t') {name : Text} (same : g.name name name)
    {entries entries' : Table Value} (held : g.Entries entries entries') (id : ScopeId) :
    g.Stores ((t.newObject entries).2.define id name (.object (t.newObject entries).1))
      ((t'.newObject entries').2.define (g.scope id) name (.object (t'.newObject entries').1)) := by
  obtain ⟨there, like⟩ := like.newObject held
  rw [there]
  exact like.define same id (.object _)

theorem Stores.newGlobals {t t' : Store} (like : g.Stores t t') (names : ∀ a ∈ Session.globalNames, g.name a a) :
    (Session.newGlobals t').1 = g.scope (Session.newGlobals t).1 ∧
      g.Stores (Session.newGlobals t).2 (Session.newGlobals t').2 := by
  obtain ⟨console, names⟩ := List.forall_mem_cons.1 names
  obtain ⟨here, like⟩ := like.newScope none
  have filled := like.defineBuiltins (t.newScope none).1 Builtin.globals (List.forall_mem_map.1 names)
  have log : g.Entries (.ofList [(Builtin.log.name, .builtin .log)]) (.ofList [(Builtin.log.name, .builtin .log)]) :=
    rfl
  have defined := filled.defineObject console log (t.newScope none).1
  refine ⟨here, ?_⟩
  rw [← here] at defined
  exact defined

/-- New sessions are alike. -/
theorem Sessions.start (older : g.older = .empty) (names : ∀ a ∈ Session.globalNames, g.name a a)
    (time : g.time now = later) : g.Sessions (.start limit now) (.start limit later) := by
  have bottom := Stores.bottom g
  rw [older] at bottom
  obtain ⟨globals, store⟩ := bottom.newGlobals names
  exact ⟨store, globals, rfl, time.symm⟩

theorem Sessions.begins (like : g.Sessions s s') (silent : g.printed = #[])
    (program : g.Bodies p.statements p'.statements) : g.Moments (s.begins p) (s'.begins p') where
  context := ⟨like.globals, rfl, like.callLimit, rfl, like.time⟩
  task := .execAll program
  state := ⟨like.store, by rw [silent]; rfl, fun _ => rfl⟩

theorem Sessions.report? (like : g.Sessions s s') (outcomes : g.Outcomes g.Completions o o') :
    Option.Rel g.Reports (s.report? o) (s'.report? o') := by
  have session {st st' : State} (states : g.States st st') :
      g.Sessions { s with store := st.store, latest := st.latest }
        { s' with store := st'.store, latest := st'.latest } :=
    ⟨states.store, like.globals, like.callLimit, like.time⟩
  have printed {st st' : State} (states : g.States st st') :
      st'.printed.toList.flatten = g.printed.toList.flatten ++ st.printed.toList.flatten := by
    rw [states.printed, Array.toList_append, List.flatten_append]
  cases outcomes with
  | @done completion _ _ _ same states =>
    obtain rfl := same
    refine .some ⟨?_, printed states, session states, states.latest⟩
    cases completion with
    | normal value => exact .finished value
    | returned value => exact .finished (some value)
  | failed errors states => exact .some ⟨.failed errors, printed states, session states, states.latest⟩
  | unfinished => exact .none

/-- A program is reported the same in sessions that are alike. -/
theorem Sessions.interpret (like : g.Sessions s s') (silent : g.printed = #[])
    (program : g.Bodies p.statements p'.statements) (timely : g.Timely (s.begins p)) (steps : Nat) :
    Option.Rel g.Reports (Session.interpret steps s p) (Session.interpret steps s' p') := by
  rw [Session.interpret_eq, Session.interpret_eq]
  exact like.report? ((like.begins silent program).run timely steps)

theorem timely_of_ignoresClock (ignores : s.IgnoresClock p) : g.Timely (s.begins p) := by
  intro calls m within clock
  rw [ignores calls m within] at clock
  cases clock

theorem Faults.eq {f f' : Fault} (faults : g.Faults f f') (names : ∀ a, g.name a a) : f' = f := by
  cases faults with
  | @undefinedVariable a b name => rw [(g.name_unique name (names a)).1 rfl]
  | same => rfl

/-- Where places and names stand for themselves only, errors are the same. -/
theorem Errors.eq {e e' : RuntimeError} (errors : g.Errors e e') (places : ∀ l l', g.place l l' → l = l')
    (names : ∀ a, g.name a a) : e' = e := by
  obtain ⟨line, fault⟩ := e
  obtain ⟨line', fault'⟩ := e'
  obtain ⟨⟨l, l', same, here, there⟩, faults⟩ := errors
  obtain rfl := places l l' same
  obtain rfl : line' = line := there.symm.trans here
  have faults : fault' = fault := faults.eq names
  rw [faults]

theorem Endings.value? {e e' : Ending} (like : g.Endings e e') : e'.value? = e.value?.map g.value := by
  cases like <;> rfl

theorem Endings.error? {e e' : Ending} (like : g.Endings e e') : Option.Rel g.Errors e.error? e'.error? := by
  cases like with
  | failed errors => exact .some errors
  | finished => exact .none

theorem Endings.isRejected {e e' : Ending} (like : g.Endings e e') : e'.isRejected = e.isRejected := by
  cases like <;> rfl

theorem Endings.isFailed {e e' : Ending} (like : g.Endings e e') : e'.isFailed = e.isFailed := by
  cases like <;> rfl

theorem Sessions.dump (like : g.Sessions s s') (names : ∀ a, g.name a a) : s'.dump = s.dump := by
  rw [Session.dump, Session.dump, like.globals]
  exact like.store.dump names s.globals

/-- The value of a program reads the same. -/
theorem Reports.inspect (like : g.Reports r r') :
    r'.ending.value?.map r'.session.inspect = r.ending.value?.map r.session.inspect := by
  rw [like.ending.value?, Option.map_map]
  exact congrArg (Option.map · _) (funext like.session.store.inspect)

end Guise

end TinyScript
