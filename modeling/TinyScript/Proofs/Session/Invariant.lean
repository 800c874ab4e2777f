import TinyScript.Proofs.Evaluation.Containment
import TinyScript.Proofs.Session.Reports
import TinyScript.Proofs.Store.Liveness

namespace TinyScript

open Store

/-- What is in use from the outside: the globals, the latest value, and what the caller holds. -/
def Session.roots (s : Session) (held : List Value) : List Node :=
  Node.scope s.globals :: (s.latest :: held).filterMap Value.node?

/-- A session that began anew with some store, while the caller holds some values. -/
structure Sound (before : Store) (s : Session) (held : List Value) : Prop where
  healthy : s.store.Healthy fun n => ¬ before.Has n
  closed : ∀ n m, before.Has n → before.Refers n m → before.Has m
  has : ∀ n, before.Has n → s.store.Has n
  edges_eq : ∀ n, before.Has n → s.store.edges n = before.edges n
  held_eq : ∀ n, before.Has n → s.store.held n = before.held n
  globals : s.store.Within (fun n => ¬ before.Has n) (.scope s.globals)
  latest : s.store.Fits (fun n => ¬ before.Has n) s.latest
  holds : ∀ v ∈ held, ∀ n, v.node? = some n → s.store.Has n
  /-- No cycle has escaped from a reset. -/
  acyclic : ∀ v ∈ held, ∀ n, v.node? = some n → before.Has n → ∀ m, before.Reaches n m → ¬ before.HoldsItself m
  /-- The arrays in use that have been created since. -/
  created : ∀ id, ¬ before.Has (.array id) → s.store.InUse (s.roots held) (.array id) → id ∈ s.store.created

variable {before : Store} {s s' : Session} {held held' : List Value} {v : Value} {n m : Node}

theorem Session.mem_roots : n ∈ s.roots held ↔
    n = .scope s.globals ∨ s.latest.node? = some n ∨ ∃ v ∈ held, v.node? = some n := by
  simp [roots]

/-- A program has stayed in a region. -/
structure Session.Stayed (region : Node → Prop) (s : Session) (report : Report) : Prop where
  healthy : report.session.store.Healthy region
  edits : Edits region s.store report.session.store
  grows : Grows region s.store report.session.store
  globals : report.session.globals = s.globals
  latest : report.session.store.Fits region report.session.latest
  value : ∀ v, report.ending.value? = some v → report.session.store.Fits region v

theorem Session.begins_contained {region : Node → Prop} (healthy : s.store.Healthy region)
    (globals : s.store.Within region (.scope s.globals)) (p : Program) : (s.begins p).Contained region :=
  ⟨⟨healthy, .of_node?_eq_none rfl⟩, globals, by simp [Session.begins, Task.Fits]⟩

theorem Session.interpret_stayed {region : Node → Prop} {steps : Nat} {p : Program} {report : Report}
    (healthy : s.store.Healthy region) (globals : s.store.Within region (.scope s.globals))
    (run : s.interpret steps p = some report) : s.Stayed region report := by
  have stays := (begins_contained healthy globals p).run steps
  rw [interpret_eq] at run
  cases ends : (s.begins p).run steps with
  | done completion st =>
    rw [ends] at run stays
    cases run
    obtain ⟨ready, edits, fits⟩ := stays
    refine ⟨ready.healthy, edits, Edits.grows edits healthy, rfl, ready.latest, fun v same => ?_⟩
    cases completion with
    | returned value =>
      cases same
      exact fits
    | normal value => exact fits v same
  | failed error st =>
    rw [ends] at run stays
    cases run
    obtain ⟨ready, edits⟩ := stays
    exact ⟨ready.healthy, edits, Edits.grows edits healthy, rfl, ready.latest, fun v none => by cases none⟩
  | unfinished =>
    rw [ends] at run
    cases run

namespace Sound

theorem has_of_mem_roots (sound : Sound before s held) (mem : n ∈ s.roots held) : s.store.Has n := by
  rcases Session.mem_roots.1 mem with rfl | latest | ⟨v, mem, node⟩
  · exact sound.globals.2
  · exact (sound.latest n latest).2
  · exact sound.holds v mem n node

theorem inUse_of_reaches_globals (reaches : s.store.Reaches (.scope s.globals) n) : s.store.InUse (s.roots held) n :=
  (InUse.of_mem (Session.mem_roots.2 (.inl rfl))).reaches reaches

/-- The caller comes to hold a value that is in use already. -/
theorem hold (sound : Sound before s held) (known : ∀ n, v.node? = some n → s.store.InUse (s.roots held) n)
    (acyclic : ∀ n, v.node? = some n → before.Has n → ∀ m, before.Reaches n m → ¬ before.HoldsItself m) :
    Sound before s (v :: held) where
  healthy := sound.healthy
  closed := sound.closed
  has := sound.has
  edges_eq := sound.edges_eq
  held_eq := sound.held_eq
  globals := sound.globals
  latest := sound.latest
  holds w mem n node := by
    rcases List.mem_cons.1 mem with rfl | mem
    · exact (known n node).has sound.healthy fun _ => sound.has_of_mem_roots
    · exact sound.holds w mem n node
  acyclic w mem n node := by
    rcases List.mem_cons.1 mem with rfl | mem
    · exact acyclic n node
    · exact sound.acyclic w mem n node
  created id new inUse := by
    refine sound.created id new (inUse.mono fun n mem => ?_)
    rcases Session.mem_roots.1 mem with rfl | latest | ⟨w, mem, node⟩
    · exact .of_mem (Session.mem_roots.2 (.inl rfl))
    · exact .of_mem (Session.mem_roots.2 (.inr (.inl latest)))
    · rcases List.mem_cons.1 mem with rfl | mem
      · exact known n node
      · exact .of_mem (Session.mem_roots.2 (.inr (.inr ⟨w, mem, node⟩)))

/-- The caller lets some values go. -/
theorem drop (sound : Sound before s held) (sub : held' ⊆ held) : Sound before s held' where
  healthy := sound.healthy
  closed := sound.closed
  has := sound.has
  edges_eq := sound.edges_eq
  held_eq := sound.held_eq
  globals := sound.globals
  latest := sound.latest
  holds v mem := sound.holds v (sub mem)
  acyclic v mem := sound.acyclic v (sub mem)
  created id new inUse := by
    refine sound.created id new (inUse.mono fun n mem => .of_mem (Session.mem_roots.2 ?_))
    rcases Session.mem_roots.1 mem with rfl | latest | ⟨w, mem, node⟩
    · exact .inl rfl
    · exact .inr (.inl latest)
    · exact .inr (.inr ⟨w, sub mem, node⟩)

/-- The caller asks for a global. -/
theorem get (sound : Sound before s held) {name : Text} (found : s.get? name = some v) :
    Sound before s (v :: held) := by
  have reachable := sound.healthy.reachable [.scope s.globals]
  refine sound.hold (fun n node => ?_) fun n node old => ?_
  · have fits := lookup_fits reachable (.inl ⟨_, List.mem_singleton_self _, .refl⟩) found n node
    obtain ⟨root, mem, reaches⟩ := fits.1.resolve_right fun missing => missing fits.2
    exact inUse_of_reaches_globals (List.mem_singleton.1 mem ▸ reaches)
  · exact absurd old (lookup_fits sound.healthy sound.globals.1 found n node).1

/-- The caller looks into an aggregate. -/
theorem look (sound : Sound before s held) {w : Value} (mem : w ∈ held) (place : w.node? = some n)
    (inside : v ∈ s.store.held n) : Sound before s (v :: held) := by
  have edge {m : Node} (node : v.node? = some m) : s.store.Refers n m := by
    have edge : m ∈ (s.store.held n).filterMap Value.node? := List.mem_filterMap.2 ⟨v, inside, node⟩
    cases n with
    | array id => exact edge
    | object id => exact edge
    | closure id => cases edge
    | scope id => cases edge
  refine sound.hold (fun m node => ?_) fun m node' old k reaches => ?_
  · exact (InUse.of_mem (Session.mem_roots.2 (.inr (.inr ⟨w, mem, place⟩)))).reaches (.single (edge node))
  · rcases Classical.em (before.Has n) with inside | outside
    · refine sound.acyclic w mem n place inside k (.head ?_ reaches)
      have edge := edge node'
      unfold Refers at edge
      rwa [sound.edges_eq n inside] at edge
    · exact absurd old (sound.healthy.closed n m outside (edge node'))

/-- The arrays that are not in use any more are forgotten. -/
theorem prune (sound : Sound before s held) {created : Array ArrayId}
    (keeps : ∀ id ∈ s.store.created, s.store.InUse (s.roots held) (.array id) → id ∈ created) :
    Sound before { s with store := { s.store with created } } held where
  healthy := ⟨sound.healthy.closed, sound.healthy.has, sound.healthy.older, sound.healthy.fresh⟩
  closed := sound.closed
  has := sound.has
  edges_eq := sound.edges_eq
  held_eq := sound.held_eq
  globals := sound.globals
  latest := sound.latest
  holds := sound.holds
  acyclic := sound.acyclic
  created id new inUse := keeps id (sound.created id new inUse) inUse

/-- However a program ends, the session behind it is sound, and so it is when the caller holds the value. -/
theorem interpret {steps : Nat} {p : Program} {report : Report} (sound : Sound before s held)
    (run : s.interpret steps p = some report) :
    Sound before report.session (report.ending.value?.toList ++ held) := by
  have after := Session.interpret_stayed sound.healthy sound.globals run
  have globals : Node.scope s.globals ∈ [Node.scope s.globals] := List.mem_singleton_self _
  -- What the globals do not reach is not changed, so it does not come into use again.
  have reach := Session.interpret_stayed (sound.healthy.reachable [.scope s.globals])
    ⟨.inl ⟨_, globals, .refl⟩, sound.globals.2⟩ run
  have fits {v : Value} (mem : v ∈ report.ending.value?.toList ++ held) :
      report.session.store.Fits (fun n => ¬ before.Has n) v ∨ v ∈ held :=
    (List.mem_append.1 mem).imp_left fun mem => after.value v (Option.mem_toList.1 mem)
  refine {
    healthy := after.healthy
    closed := sound.closed
    has := fun n old => after.grows.has n (sound.has n old)
    edges_eq := fun n old => (after.grows.edges_eq n fun new => new old).trans (sound.edges_eq n old)
    held_eq := fun n old => (after.grows.held_eq n fun new => new old).trans (sound.held_eq n old)
    globals := after.globals ▸ sound.globals.mono after.grows.has
    latest := after.latest
    holds := fun v mem n node => ?_
    acyclic := fun v mem n node old => ?_
    created := fun id new inUse => ?_ }
  · rcases fits mem with fits | mem
    · exact (fits n node).2
    · exact after.grows.has n (sound.holds v mem n node)
  · rcases fits mem with fits | mem
    · exact absurd old (fits n node).1
    · exact sound.acyclic v mem n node old
  · by_cases there : s.store.Has (.array id)
    · refine reach.grows.remembers id (sound.created id new ?_)
      have known : ∀ root ∈ report.session.roots (report.ending.value?.toList ++ held),
          ((∃ root' ∈ [Node.scope s.globals], s.store.Reaches root' root) ∨ ¬ s.store.Has root) ∨
            s.store.InUse (s.roots held) root := by
        intro root mem
        rcases Session.mem_roots.1 mem with rfl | latest | ⟨v, mem, node⟩
        · exact .inl (.inl ⟨_, globals, after.globals ▸ .refl⟩)
        · exact .inl (reach.latest root latest).1
        · rcases List.mem_append.1 mem with mem | mem
          · exact .inl (reach.value v (Option.mem_toList.1 mem) root node).1
          · exact .inr (.of_mem (Session.mem_roots.2 (.inr (.inr ⟨v, mem, node⟩))))
      rcases reach.grows.inUse reach.healthy known inUse with (⟨root, mem, reaches⟩ | missing) | inUse
      · exact inUse_of_reaches_globals (List.mem_singleton.1 mem ▸ reaches)
      · exact absurd there missing
      · exact inUse
    · refine after.grows.tracks id there (inUse.has after.healthy fun root mem => ?_)
      rcases Session.mem_roots.1 mem with rfl | latest | ⟨v, mem, node⟩
      · exact (after.globals ▸ sound.globals.mono after.grows.has).2
      · exact (after.latest root latest).2
      · rcases fits mem with fits | mem
        · exact (fits root node).2
        · exact after.grows.has root (sound.holds v mem root node)

end Sound

end TinyScript
