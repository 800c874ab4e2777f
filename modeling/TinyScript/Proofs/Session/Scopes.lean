import TinyScript.Proofs.Evaluation.Scopes
import TinyScript.Proofs.Session.Permanence
import TinyScript.Proofs.Store.Extension
import TinyScript.Proofs.Store.Leftovers
import TinyScript.Proofs.Store.Lookup

namespace TinyScript

open Store

variable {before : Store} {s : Session} {held : List Value} {region : Node → Prop} {report : Report} {steps n : Nat}
  {m : Moment} {outer : ScopeId} {bindings : Table Value}

/-- When nothing of a region is there yet, new globals are all that there is, and lie in nothing. -/
theorem newGlobals_layered (store : Store) (healthy : store.Healthy region)
    (missing : ∀ id, region (.scope id) → ¬ store.Has (.scope id)) :
    (Session.newGlobals store).2.Layered region (Session.newGlobals store).1 := by
  obtain ⟨same, edits⟩ := newGlobals_edits store healthy
  rw [same]
  have there : (store.newScope none).2.Has (.scope (store.newScope none).1) := by simp [newScope, Has]
  refine Edits.layered edits there ⟨by simp [newScope, outer?], fun id within => .inl ?_⟩
  have new : ¬ id < store.scopes.size := missing id within.1
  have has : id < store.scopes.size + 1 := by simpa [Has, newScope] using within.2
  exact Nat.le_antisymm (Nat.lt_succ_iff.1 has) (Nat.not_lt.1 new)

theorem Sound.interpret_layered (sound : Sound before s held) {p : Program}
    (run : s.interpret steps p = some report)
    (layered : s.store.Layered (fun n => ¬ before.Has n) s.globals) :
    report.session.store.Layered (fun n => ¬ before.Has n) report.session.globals := by
  have after := Session.interpret_stayed sound.healthy sound.globals run
  rw [after.globals]
  exact Edits.layered after.edits sound.globals.2 layered

/-- All scopes that have been made since a session began lie in its globals. -/
theorem Reached.layered (reached : Reached before s held) :
    s.store.Layered (fun n => ¬ before.Has n) s.globals := by
  induction reached with
  | started callLimit time => exact newGlobals_layered .empty empty_healthy fun id new => new
  | interpreted reached run ih => exact reached.sound.interpret_layered run ih
  | @ran _ s _ _ _ filename _ reached run ih =>
    rw [Session.run_eq] at run
    split at run
    · cases run
      exact ih
    · exact (reached.sound.named (s.filenames.insert filename)).interpret_layered run ih
  | got _ _ ih => exact ih
  | looked _ _ _ _ ih => exact ih
  | dropped _ _ ih => exact ih
  | pruned _ _ ih => exact ⟨ih.outermost, ih.outer⟩
  | reset reached _ => exact newGlobals_layered _ reached.sound.teardown_healthy.forget fun id new => new

theorem newGlobals_placed (store : Store) (healthy : store.Healthy region) (placed : store.Placed) :
    (Session.newGlobals store).2.Placed :=
  Edits.placed (newGlobals_edits store healthy).2 (placed.newScope nofun)

theorem Reached.placed (reached : Reached before s held) : s.store.Placed := by
  induction reached with
  | started callLimit time => exact newGlobals_placed .empty empty_healthy placed_empty
  | interpreted reached run ih => exact Edits.placed (reached.sound.interpret_edits run) ih
  | ran reached run ih => exact Edits.placed (reached.sound.run_edits run) ih
  | got _ _ ih => exact ih
  | looked _ _ _ _ ih => exact ih
  | dropped _ _ ih => exact ih
  | pruned _ _ ih => exact ⟨ih.older, ih.closures⟩
  | @reset _ s held reached ih =>
    have left := (s.teardown_shrinks held).placed ih
    exact newGlobals_placed _ reached.sound.teardown_healthy.forget ⟨left.older, left.closures⟩

/-- Whatever a program comes to, scopes and closures are in their places, and the current scope is there. -/
theorem Reached.placed_within (reached : Reached before s held) {p : Program} {calls : Nat}
    (within : TinyScript.Within (s.begins p) calls m) :
    m.state.store.Placed ∧ m.state.store.Has (.scope m.context.scope) := by
  obtain ⟨contained, edits⟩ := (reached.sound.begins p).within within
  exact ⟨Edits.placed edits reached.placed, contained.scope.2⟩

/-- Whatever a program comes to, all that anything refers to is there. -/
theorem Reached.closed_within (reached : Reached before s held) {p : Program} {calls : Nat}
    (within : TinyScript.Within (s.begins p) calls m) : m.state.store.Closed := by
  obtain ⟨-, edits⟩ := (reached.sound.begins p).within within
  exact (Edits.healthy edits reached.sound.healthy).has

/-- Every scope that is not older than the session is rooted in its globals, and so is what functions capture. -/
structure Store.ScopesRooted (s before : Store) (globals : ScopeId) : Prop where
  scopes : ∀ id, ¬ before.Has (.scope id) → s.Has (.scope id) → s.Rooted globals id
  captured : ∀ (id : ClosureId) (c : Closure), ¬ before.Has (.closure id) → s.closures[id]? = some c →
    s.Rooted globals c.scope

theorem Store.Layered.scopesRooted {store : Store} {globals : ScopeId}
    (layered : store.Layered (fun n => ¬ before.Has n) globals) (healthy : store.Healthy fun n => ¬ before.Has n) :
    store.ScopesRooted before globals where
  scopes _ new has := layered.rooted ⟨new, has⟩
  captured _ _ new found := layered.rooted (Evaluation.closure_within healthy new found)

/-- The scopes of a program that has ended are there ever after. -/
theorem Reached.scopes_stay (reached : Reached before s held) {p : Program} (run : s.interpret steps p = some report)
    {later : Store} (comes : Caller.ComesTo ⟨report.session, report.ending.value?.toList ++ held⟩ later)
    (mem : m ∈ (s.begins p).moments steps) : m.ScopesIn later := by
  have settled := (containment_holds _).settled (Moment.containment_settles _) (reached.sound.begins p) steps
  have edits := comes.edits (reached.interpreted run)
  rw [Session.interpret_eq] at run
  obtain ⟨last, ended, _, same⟩ := Session.report?_eq run
  have scopes := settled.ends m mem last ended
  rw [same] at edits
  exact scopes.edits edits

/-- From all scopes that have been made since a session began, and at every moment of a program, the way leads outwards
to the globals of the session and ends there. All that is done is done in the globals or in a scope opened around it. A
scope that is opened is a new one to which nothing refers, and no moment of the program or of a later one opens it
again. -/
theorem Reached.scopes_fresh (reached : Reached before s held) (p : Program) :
    s.store.ScopesRooted before s.globals ∧
    (∀ calls m, Within (s.begins p) calls m → m.state.store.ScopesRooted before s.globals ∧
      m.state.store.Rooted s.globals m.context.scope ∧
      (m.context.scope = s.globals ∨ ∃ around calls w outer bindings, Within (s.begins p) around w ∧ Within w calls m ∧
        w.Opens outer bindings ∧ m.context.scope = w.opened) ∧
      ∀ outer bindings, m.Opens outer bindings → m.OpensFresh outer bindings) ∧
    (∀ n, ((s.begins p).moments n).Pairwise Moment.Apart) ∧
    ∀ steps report, s.interpret steps p = some report →
      ∀ later, Caller.ComesTo ⟨report.session, report.ending.value?.toList ++ held⟩ later →
        ∀ m ∈ (s.begins p).moments steps, ∀ w : Moment, w.state.store = later → m.Apart w := by
  have begins := reached.sound.begins p
  refine ⟨reached.layered.scopesRooted reached.sound.healthy, fun calls m within => ?_, fun n => ?_,
    fun steps report run later comes m mem w same => ?_⟩
  · obtain ⟨contained, edits⟩ := begins.within within
    have layered := Edits.layered edits reached.sound.globals.2 reached.layered
    exact ⟨layered.scopesRooted contained.ready.healthy, layered.rooted contained.scope, begins.scope_opened within,
      fun outer bindings => contained.opens_fresh⟩
  · have settled := (containment_holds _).settled (Moment.containment_settles _) begins n
    exact settled.pairwise.imp fun scopes => scopes.apart
  · have scopes := reached.scopes_stay run comes mem
    rw [← same] at scopes
    exact scopes.apart

/-- A block that is executed in each call of a function. -/
def calledTwice : Text := "function f(x) { { return function() { return x; }; } } f(true); f(false)"

/-- The scope that a block opens. -/
def Moment.blockScope? (m : Moment) : Option ScopeId :=
  match m.task with
  | .exec (.block _ _) => some m.opened
  | _ => none

/-- The block lies in two scopes of its own, one in each call. -/
theorem Reached.scopes_fresh_calls : ∃ p, (Session.readProgram calledTwice).toOption = some p ∧
    (((Session.start 8 0).begins p).moments 40).filterMap Moment.blockScope? = [2, 4] ∧
    (((Session.start 8 0).begins p).moments 40).Pairwise Moment.Apart ∧
    ∃ calls m, Within ((Session.start 8 0).begins p) calls m ∧ m.context.scope = 4 ∧ m.state.store.Rooted 0 4 := by
  have runs : (Session.readProgram calledTwice).toOption.map (fun p =>
      ((((Session.start 8 0).begins p).moments 40).filterMap Moment.blockScope?,
        (((Session.start 8 0).begins p).moments 40).any fun m => m.context.scope == 4)) =
      some ([2, 4], true) := by decide +kernel
  obtain ⟨p, read, shown⟩ := Option.map_eq_some_iff.1 runs
  obtain ⟨blocks, inside⟩ := Prod.mk.inj shown
  obtain ⟨m, mem, scope⟩ := List.any_eq_true.1 inside
  obtain ⟨calls, within⟩ := Moment.within_of_mem_moments mem
  obtain ⟨_, moments, apart, _⟩ := (Reached.started 8 0).scopes_fresh p
  have rooted := (moments calls m within).2.1
  rw [beq_iff_eq.1 scope] at rooted
  exact ⟨p, read, blocks, apart 40, calls, m, within, beq_iff_eq.1 scope, rooted⟩

end TinyScript
