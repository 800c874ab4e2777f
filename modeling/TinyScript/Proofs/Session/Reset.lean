import TinyScript.Proofs.Session.Invariant
import TinyScript.Proofs.Session.Outcomes
import TinyScript.Proofs.Store.Shrinking

namespace TinyScript

open Store

variable {before : Store} {s : Session} {held held' : List Value} {v : Value} {n m : Node} {region : Node → Prop}

/-- The scope of the globals lies in no other one, and all else that is new is edited in behind it. -/
theorem newGlobals_edits (store : Store) (healthy : store.Healthy region) :
    (Session.newGlobals store).1 = (store.newScope none).1 ∧
      Edits region (store.newScope none).2 (Session.newGlobals store).2 := by
  have entriesFit (s : Store) : ∀ v ∈ (Table.ofList [(Builtin.log.name, Value.builtin .log)]).values,
      s.Fits region v :=
    Evaluation.fits_ofList fun entry mem => by
      cases List.mem_singleton.1 mem
      exact .of_node?_eq_none rfl
  unfold Session.newGlobals
  generalize Builtin.globals = builtins
  generalize Table.ofList [(Builtin.log.name, Value.builtin .log)] = entries at entriesFit
  have scope := newScope_changes healthy none fun id none => by cases none
  have within := newScope_within healthy none
  have bound := foldl_define_edits Builtin.name Value.builtin within.1 builtins (s := (store.newScope none).2)
    fun _ _ => .of_node?_eq_none rfl
  have console := newObject_fits (Edits.healthy bound (scope.healthy healthy)) entries
  exact ⟨rfl, (bound.tail (.newObject (entriesFit _))).tail (.define within.1 console)⟩

/-- The scope of the globals is new, and all that is put there. -/
theorem newGlobals_stays (store : Store) (healthy : store.Healthy region) :
    (Session.newGlobals store).2.Healthy region ∧ Grows region store (Session.newGlobals store).2 ∧
      (Session.newGlobals store).2.Within region (.scope (Session.newGlobals store).1) := by
  have scope := newScope_changes healthy none fun id none => by cases none
  have within := newScope_within healthy none
  obtain ⟨same, edits⟩ := newGlobals_edits store healthy
  rw [same]
  exact ⟨Edits.healthy edits (scope.healthy healthy),
    (scope.grows rfl rfl).trans (Edits.grows edits (scope.healthy healthy)), within.mono (Edits.has edits)⟩

/-- A session is sound when it begins, whatever the caller holds. -/
theorem Sound.anew (closed : ∀ n m, before.Refers n m → before.Has m)
    (stays : s.store.Healthy (fun n => ¬ before.Has n) ∧
      Grows (fun n => ¬ before.Has n) { before with created := #[], captured := #[] } s.store ∧
      s.store.Within (fun n => ¬ before.Has n) (.scope s.globals))
    (latest : s.latest = .null) (holds : ∀ v ∈ held, ∀ n, v.node? = some n → before.Has n)
    (acyclic : ∀ v ∈ held, ∀ n, v.node? = some n → ∀ m, before.Reaches n m → ¬ before.HoldsItself m) :
    Sound before s held where
  healthy := stays.1
  closed n m _ edge := closed n m edge
  has := stays.2.1.has
  edges_eq n old := stays.2.1.edges_eq n fun new => new old
  held_eq n old := stays.2.1.held_eq n fun new => new old
  globals := stays.2.2
  latest := latest ▸ .of_node?_eq_none rfl
  holds v mem n node := stays.2.1.has n (holds v mem n node)
  acyclic v mem n node _ := acyclic v mem n node
  created id new inUse := by
    refine stays.2.1.tracks id new (inUse.has stays.1 fun root mem => ?_)
    rcases Session.mem_roots.1 mem with rfl | last | ⟨v, mem, node⟩
    · exact stays.2.2.2
    · rw [latest] at last
      cases last
    · exact stays.2.1.has root (holds v mem root node)

/-- In a store that is empty there is nothing that could be wrong. -/
theorem empty_healthy : Store.empty.Healthy fun n => ¬ Store.empty.Has n := by
  have missing (n : Node) : ¬ Store.empty.Has n := by cases n <;> simp [Has, Store.empty]
  exact {
    closed := fun _ m _ _ => missing m
    has := fun n m edge => by rw [edges_eq_nil (missing n)] at edge; cases edge
    older := fun i j edge => by rw [edges_eq_nil (missing _)] at edge; cases edge
    fresh := fun _ missing => missing }

/-- A new session is sound, and the caller holds nothing yet. -/
theorem Sound.start (callLimit : Nat) (time : Float) : Sound .empty (.start callLimit time) [] := by
  have same : (Session.start callLimit time).latest = .null := rfl
  exact .anew empty_healthy.has (newGlobals_stays .empty empty_healthy) same (fun v mem => by cases mem) fun v mem =>
    by cases mem

/-- The store of a session in which the scopes of closures have forgotten their names. -/
def Session.released (s : Session) : Store := s.store.captured.foldl clearScope s.store

theorem Session.released_shrinks (s : Session) : s.store.Shrinks s.released := by
  unfold released
  rw [← Array.foldl_toList]
  exact .foldl clearScope_shrinks _ _

theorem foldl_clearScope (ids : List ScopeId) (s : Store) :
    (ids.foldl clearScope s).arrays = s.arrays ∧ (ids.foldl clearScope s).objects = s.objects ∧
      (ids.foldl clearScope s).closures = s.closures ∧ (ids.foldl clearScope s).created = s.created := by
  induction ids generalizing s with
  | nil => exact ⟨rfl, rfl, rfl, rfl⟩
  | cons id ids ih => exact ih (s.clearScope id)

/-- Arrays, objects and closures are not touched. -/
theorem Session.released_same (s : Session) : s.released.arrays = s.store.arrays ∧
    s.released.objects = s.store.objects ∧ s.released.closures = s.store.closures ∧
      s.released.created = s.store.created := by
  unfold released
  rw [← Array.foldl_toList]
  exact foldl_clearScope _ _

theorem Session.released_elements (s : Session) (id : ArrayId) : s.released.elements id = s.store.elements id := by
  rw [elements, s.released_same.1, elements]

theorem Session.released_entries (s : Session) (id : ObjectId) : s.released.entries id = s.store.entries id := by
  rw [entries, s.released_same.2.1, entries]

theorem Session.released_child (s : Session) : s.released.Child n m ↔ s.store.Child n m := by
  unfold Child children
  cases n with
  | array id => rw [held, held, s.released_elements]
  | object id => rw [held, held, s.released_entries]
  | closure id => rfl
  | scope id => rfl

theorem Session.released_holdsItself (s : Session) : s.released.HoldsItself n ↔ s.store.HoldsItself n := by
  have same : s.released.Child = s.store.Child := by
    funext n m
    exact propext s.released_child
  rw [HoldsItself, HoldsItself, same]

/-- The arrays from which a reset searches. -/
def Session.searched (s : Session) (held : List Value) : List ArrayId := s.released.createdInUse (s.roots held)

theorem Session.teardown_eq (s : Session) (held : List Value) :
    s.teardown held = (s.released.breakCycles (s.searched held)).clearScope s.globals := rfl

theorem Session.teardown_shrinks (s : Session) (held : List Value) : s.store.Shrinks (s.teardown held) := by
  rw [teardown_eq]
  exact (s.released_shrinks.trans (breakCycles_shrinks _ _)).trans (clearScope_shrinks _ _)

/-- What is in an aggregate after a session has ended was left there when cycles were broken. -/
theorem Session.teardown_child (child : (s.teardown held).Child n m) :
    (s.released.breakCycles (s.searched held)).Child n m := by
  rw [s.teardown_eq held] at child
  cases n with
  | array id => exact child
  | object id => exact child
  | closure id => cases child
  | scope id => cases child

/-- What holds itself after a session has ended did so before. -/
theorem Session.teardown_holdsItself (cyclic : (s.teardown held).HoldsItself n) : s.store.HoldsItself n :=
  s.released_holdsItself.1 <|
    Relation.TransGen.mono (fun _ _ child => (breakCycles_child (Session.teardown_child child)).1) _ _ cyclic

/-- An array that did not hold itself keeps its elements when the session ends. -/
theorem Session.teardown_elements {id : ArrayId} (acyclic : ¬ s.store.HoldsItself (.array id)) :
    (s.teardown held).elements id = s.store.elements id := by
  have kept := breakCycles_elements (s.searched held) (mt s.released_holdsItself.1 acyclic)
  exact kept.trans (s.released_elements id)

/-- An object that did not hold itself keeps its entries when the session ends. -/
theorem Session.teardown_entries {id : ObjectId} (acyclic : ¬ s.store.HoldsItself (.object id)) :
    (s.teardown held).entries id = s.store.entries id := by
  have kept := breakCycles_entries (s.searched held) (mt s.released_holdsItself.1 acyclic)
  exact kept.trans (s.released_entries id)

namespace Sound

theorem released_healthy (sound : Sound before s held) : s.released.Healthy fun n => ¬ before.Has n :=
  s.released_shrinks.healthy sound.healthy

theorem released_has (sound : Sound before s held) : ∀ root ∈ s.roots held, s.released.Has root :=
  fun _ mem => (s.released_shrinks.has _).2 (sound.has_of_mem_roots mem)

/-- What the caller could reach before the session began anew is as it was then. -/
theorem acyclic_of_reaches (sound : Sound before s held) (mem : v ∈ held) {root : Node} (node : v.node? = some root)
    (old : before.Has root) (reaches : s.store.Reaches root n) : ¬ s.store.HoldsItself n := by
  intro cyclic
  obtain ⟨inside, reaches⟩ := reaches_of_agree sound.closed sound.edges_eq old reaches
  exact sound.acyclic v mem root node old n reaches (holdsItself_of_agree sound.closed sound.held_eq inside cyclic)

/-- When a session has ended, no array that has been created since it began reaches itself. As long as it did it was in
use, and so the search began from it. -/
theorem teardown_array (sound : Sound before s held) {id : ArrayId} (new : ¬ before.Has (.array id)) :
    ¬ (s.teardown held).HoldsItself (.array id) := by
  intro cyclic
  have broken : (s.released.breakCycles (s.searched held)).HoldsItself (.array id) :=
    Relation.TransGen.mono (fun _ _ child => Session.teardown_child child) _ _ cyclic
  have released : s.released.HoldsItself (.array id) :=
    Relation.TransGen.mono (fun _ _ child => (breakCycles_child child).1) _ _ broken
  have created := sound.created id new (.of_cycle (s.released_holdsItself.1 released).cycle)
  rw [← s.released_same.2.2.2] at created
  have searched := mem_createdInUse sound.released_healthy sound.released_has (.of_cycle released.cycle) created
  exact breakCycles_not_holdsItself searched .refl broken

/-- When a session has ended, nothing that the caller holds leads to an aggregate that reaches itself. -/
theorem teardown_acyclic (sound : Sound before s held) (mem : v ∈ held) {root : Node} (node : v.node? = some root)
    (reaches : (s.teardown held).Reaches root n) : ¬ (s.teardown held).HoldsItself n := by
  intro cyclic
  have shrinks := s.teardown_shrinks held
  obtain ⟨id, way, cyclic⟩ := (shrinks.healthy sound.healthy).array_of_holdsItself cyclic
  -- Some array on the cycle is reached as well.
  have reaches : s.store.Reaches root (.array id) := shrinks.reaches <|
    reaches.trans (Relation.ReflTransGen.mono (fun _ _ child => child.refers) _ _ way)
  by_cases old : before.Has root
  · exact sound.acyclic_of_reaches mem node old reaches (Session.teardown_holdsItself cyclic)
  · exact sound.teardown_array (sound.healthy.reaches old reaches) cyclic

end Sound

theorem Store.Healthy.forget {store : Store} (healthy : store.Healthy region) :
    Healthy region { store with created := #[], captured := #[] } :=
  ⟨healthy.closed, healthy.has, healthy.older, healthy.fresh⟩

theorem Sound.teardown_healthy (sound : Sound before s held) :
    (s.teardown held).Healthy fun n => ¬ (s.teardown held).Has n := by
  have ended := (s.teardown_shrinks held).healthy sound.healthy
  refine ⟨fun n m missing edge => ?_, ended.has, ended.older, fun _ missing => missing⟩
  rw [edges_eq_nil missing] at edge
  cases edge

/-- A session that begins anew is sound. -/
theorem Sound.reset (sound : Sound before s held) : Sound (s.teardown held) (s.reset held) held := by
  have ended := sound.teardown_healthy
  have globals := newGlobals_stays _ ended.forget
  have same : (s.reset held).latest = .null := rfl
  exact .anew ended.has globals same
    (fun v mem n node => ((s.teardown_shrinks held).has n).2 (sound.holds v mem n node))
    fun v mem n node m reaches => sound.teardown_acyclic mem node reaches

theorem foldl_define_objects {γ : Type} (name : γ → Text) (value : γ → Value) (scope : ScopeId) (cs : List γ)
    (s : Store) : (cs.foldl (fun s c => s.define scope (name c) (value c)) s).objects = s.objects := by
  induction cs generalizing s with
  | nil => rfl
  | cons c cs ih => exact ih (s.define scope (name c) (value c))

/-- The objects that are there stay as they are when a session begins anew. -/
theorem newGlobals_entries {store : Store} {id : ObjectId} (has : store.Has (.object id)) :
    (Session.newGlobals { store with created := #[], captured := #[] }).2.entries id = store.entries id := by
  have objects : ∃ console, (Session.newGlobals { store with created := #[], captured := #[] }).2.objects =
      store.objects.push console := by
    unfold Session.newGlobals
    generalize Builtin.globals = builtins
    exact ⟨_, congrArg (Array.push · _) (foldl_define_objects Builtin.name Value.builtin _ builtins _)⟩
  obtain ⟨console, objects⟩ := objects
  have other : id ≠ store.objects.size := Nat.ne_of_lt has
  rw [entries, objects, Array.getElem?_push, if_neg other, entries]

/-- The sessions that there can be, with the store in which each began and the values that the caller holds. The
caller comes to hold what programs yield, what the globals are, and what is in the aggregates that it holds. -/
inductive Reached : Store → Session → List Value → Prop
  | started (callLimit : Nat) (time : Float) : Reached .empty (.start callLimit time) []
  | interpreted {before : Store} {s : Session} {held : List Value} {steps : Nat} {p : Program} {report : Report} :
    Reached before s held → s.interpret steps p = some report →
    Reached before report.session (report.ending.value?.toList ++ held)
  | ran {before : Store} {s : Session} {held : List Value} {steps : Nat} {source filename : Text} {report : Report} :
    Reached before s held → s.run steps source filename = some report →
    Reached before report.session (report.ending.value?.toList ++ held)
  | got {before : Store} {s : Session} {held : List Value} {name : Text} {v : Value} :
    Reached before s held → s.get? name = some v → Reached before s (v :: held)
  | looked {before : Store} {s : Session} {held : List Value} {v w : Value} {n : Node} :
    Reached before s held → w ∈ held → w.node? = some n → v ∈ s.store.held n → Reached before s (v :: held)
  | dropped {before : Store} {s : Session} {held held' : List Value} :
    Reached before s held → held' ⊆ held → Reached before s held'
  /-- Arrays that are not in use any more are forgotten. -/
  | pruned {before : Store} {s : Session} {held : List Value} {keep : ArrayId → Bool} :
    Reached before s held → (∀ id, s.store.InUse (s.roots held) (.array id) → keep id) →
    Reached before { s with store := { s.store with created := s.store.created.filter keep } } held
  | reset {before : Store} {s : Session} {held : List Value} :
    Reached before s held → Reached (s.teardown held) (s.reset held) held

/-- The names of files do not matter. -/
theorem Sound.named (sound : Sound before s held) (filenames : List Text) : Sound before { s with filenames } held :=
  ⟨sound.healthy, sound.closed, sound.has, sound.edges_eq, sound.held_eq, sound.globals, sound.latest, sound.holds,
    sound.acyclic, sound.created⟩

theorem Sound.run {steps : Nat} {source filename : Text} {report : Report} (sound : Sound before s held)
    (run : s.run steps source filename = some report) :
    Sound before report.session (report.ending.value?.toList ++ held) := by
  rw [Session.run_eq] at run
  split at run
  · cases run
    exact sound
  · exact (sound.named _).interpret run

theorem Reached.sound (reached : Reached before s held) : Sound before s held := by
  induction reached with
  | started callLimit time => exact .start callLimit time
  | interpreted _ run ih => exact ih.interpret run
  | ran _ run ih => exact ih.run run
  | got _ found ih => exact ih.get found
  | looked _ mem node inside ih => exact ih.look mem node inside
  | dropped _ sub ih => exact ih.drop sub
  | pruned _ keeps ih => exact ih.prune fun id mem inUse => Array.mem_filter.2 ⟨mem, keeps id inUse⟩
  | reset _ ih => exact ih.reset

/-- On every cycle of arrays and objects there is an array, and every array that has been created since the
session began and is still in use is among the created ones. After a reset nothing that the caller holds leads
to an array or to an object that reaches itself, and those that did not reach themselves have what they had. -/
theorem Reached.no_cycle_escapes (reached : Reached before s held) :
    (∀ n path, (n :: path).IsChain s.store.Child → path.getLast? = some n → ∃ id, Node.array id ∈ path) ∧
      (∀ id, ¬ before.Has (.array id) → s.store.InUse (s.roots held) (.array id) → id ∈ s.store.created) ∧
      (∀ v ∈ held, ∀ root, v.node? = some root → ∀ n, (s.reset held).store.Reaches root n →
        ¬ (s.reset held).store.HoldsItself n) ∧
      (∀ id, s.store.Has (.array id) → ¬ s.store.HoldsItself (.array id) →
        (s.reset held).store.elements id = s.store.elements id) ∧
      ∀ id, s.store.Has (.object id) → ¬ s.store.HoldsItself (.object id) →
        (s.reset held).store.entries id = s.store.entries id := by
  have sound := reached.sound
  have anew := sound.reset
  have there (n : Node) (has : s.store.Has n) : (s.teardown held).Has n := ((s.teardown_shrinks held).has n).2 has
  refine ⟨fun n path chain ends => sound.healthy.array_mem_of_cycle chain ends, sound.created,
    fun v mem root node n reaches => ?_, fun id has acyclic => ?_, fun id has acyclic => ?_⟩
  · exact anew.acyclic_of_reaches mem node (there root (sound.holds v mem root node)) reaches
  · have kept : ((s.reset held).store.elements id).toList = ((s.teardown held).elements id).toList :=
      anew.held_eq (.array id) (there _ has)
    rw [Array.toList_inj.1 kept, Session.teardown_elements acyclic]
  · have kept : (s.reset held).store.entries id = (s.teardown held).entries id := newGlobals_entries (there _ has)
    rw [kept, Session.teardown_entries acyclic]

/-- An array in an object in itself is not in itself after a reset. -/
theorem Reached.no_cycle_escapes_push : ∃ report : Report,
    (Session.start 8 0).run 30 "var a = []; push(a, {self: a}); a" "main" = some report ∧
      report.session.store.HoldsItself (.array 0) ∧
      ¬ (report.session.reset [.array 0]).store.HoldsItself (.array 0) := by
  have runs : ((Session.start 8 0).run 30 "var a = []; push(a, {self: a}); a" "main").map (fun report =>
      (report.ending.value?, report.session.store.children (.array 0), report.session.store.children (.object 1))) =
        some (some (.array 0), [.object 1], [.array 0]) := by decide +kernel
  obtain ⟨report, run, shown⟩ := Option.map_eq_some_iff.1 runs
  obtain ⟨value, shown⟩ := Prod.mk.inj shown
  obtain ⟨inArray, inObject⟩ := Prod.mk.inj shown
  have reached := (Reached.started 8 0).ran run
  rw [value] at reached
  have down : report.session.store.Child (.array 0) (.object 1) := by simp [Child, inArray]
  have up : report.session.store.Child (.object 1) (.array 0) := by simp [Child, inObject]
  exact ⟨report, run, .head down (.single up),
    reached.no_cycle_escapes.2.2.1 _ List.mem_cons_self (.array 0) rfl (.array 0) .refl⟩

end TinyScript
