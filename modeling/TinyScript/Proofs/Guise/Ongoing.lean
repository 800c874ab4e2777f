import TinyScript.Proofs.Guise.Sessions

namespace TinyScript

variable {α : Type}

/-- The store when more arrays and scopes have been noted before. -/
def Store.noted (s : Store) (created : Array ArrayId) (captured : Array ScopeId) : Store :=
  { s with created := created ++ s.created, captured := captured ++ s.captured }

namespace Stacked

variable {R : α → α → Prop} {xs ys : Array α}

theorem eq (stacked : Stacked R #[] xs ys) (same : ∀ a b, R a b → b = a) : ys = xs := by
  refine Array.ext_getElem? fun i => ?_
  have found := rel_imp (stacked.get i) same
  rw [Array.size_empty, Nat.zero_add] at found
  have same : ys[i]? = xs[i]?.map id := rel_iff_eq_map.1 found
  rw [same, Option.map_id, id]

theorem same (refl : ∀ a, R a a) (xs : Array α) : Stacked R #[] xs xs where
  size := (Nat.zero_add _).symm
  get i := by
    rw [Array.size_empty, Nat.zero_add]
    cases xs[i]? with
    | none => exact .none
    | some a => exact .some (refl a)

end Stacked

namespace Guise

/-- More has been noted and printed before, and the latest value may be another one. -/
def ongoing (created : Array ArrayId) (captured : Array ScopeId) (printed : Array Text) (sameLatest : Prop) :
    Guise where
  place := Eq
  name := Eq
  name_unique := Eq.congr
  older := Store.empty.noted created captured
  printed := printed
  sameLatest := sameLatest
  time := id

variable {created : Array ArrayId} {captured : Array ScopeId} {printed : Array Text} {sameLatest : Prop} {s s' : Store}

theorem ongoing_plain : (ongoing created captured printed sameLatest).Plain := ⟨fun _ => rfl, fun _ => rfl⟩

theorem ongoing_array : (ongoing created captured printed sameLatest).array = id := funext Nat.zero_add

theorem ongoing_scope : (ongoing created captured printed sameLatest).scope = id := funext Nat.zero_add

theorem ongoing_value : (ongoing created captured printed sameLatest).value = id := by
  funext v
  cases v with
  | array i => exact congrArg Value.array (Nat.zero_add i)
  | object i => exact congrArg Value.object (Nat.zero_add i)
  | closure i => exact congrArg Value.closure (Nat.zero_add i)
  | _ => rfl

theorem ongoing_bindings_iff {t t' : Table Value} :
    (ongoing created captured printed sameLatest).Bindings t t' ↔ t' = t := by
  constructor
  · intro like
    refine Table.eq_of_get? fun a => ?_
    rw [like a a rfl, ongoing_value, Option.map_id, id]
  · rintro rfl a _ rfl
    rw [ongoing_value, Option.map_id, id]

theorem ongoing_entries_iff {t t' : Table Value} :
    (ongoing created captured printed sameLatest).Entries t t' ↔ t' = t := by
  have all : t.entries.map (fun e => (e.1, (ongoing created captured printed sameLatest).value e.2)) = t.entries := by
    rw [ongoing_value]
    exact List.map_id _
  unfold Entries
  rw [all]
  constructor
  · intro same
    obtain ⟨_, _⟩ := t
    obtain ⟨_, _⟩ := t'
    cases same
    rfl
  · rintro rfl
    rfl

theorem ongoing_closures_iff {c d : Closure} :
    (ongoing created captured printed sameLatest).Closures c d ↔ d = c := by
  constructor
  · rintro ⟨literal, scope⟩
    have same := literal.eq (fun _ _ => id) fun _ _ => id
    rw [ongoing_scope] at scope
    obtain ⟨_, _⟩ := c
    obtain ⟨_, _⟩ := d
    cases same
    cases scope
    rfl
  · rintro rfl
    exact ⟨Functions.refl ongoing_plain _, by rw [ongoing_scope]; rfl⟩

theorem ongoing_scopes_iff {c d : Scope} : (ongoing created captured printed sameLatest).Scopes c d ↔ d = c := by
  constructor
  · rintro ⟨bindings, outer⟩
    have bindings := ongoing_bindings_iff.1 bindings
    rw [ongoing_scope, Option.map_id, id] at outer
    obtain ⟨_, _⟩ := c
    obtain ⟨_, _⟩ := d
    cases bindings
    cases outer
    rfl
  · rintro rfl
    exact ⟨ongoing_bindings_iff.2 rfl, by rw [ongoing_scope, Option.map_id]; rfl⟩

/-- The store is the same, but for what was noted before. -/
theorem ongoing_stores_iff :
    (ongoing created captured printed sameLatest).Stores s s' ↔ s' = s.noted created captured := by
  constructor
  · rintro ⟨arrays, objects, closures, scopes, newer, later⟩
    have arrays : s'.arrays = s.arrays := arrays.eq fun a b same => by
      rw [same, ongoing_value, Array.map_id]
    have objects : s'.objects = s.objects := objects.eq fun _ _ => ongoing_entries_iff.1
    have closures : s'.closures = s.closures := closures.eq fun _ _ => ongoing_closures_iff.1
    have scopes : s'.scopes = s.scopes := scopes.eq fun _ _ => ongoing_scopes_iff.1
    rw [ongoing_array, Array.map_id] at newer
    rw [ongoing_scope, Array.map_id] at later
    obtain ⟨_, _, _, _, _, _⟩ := s'
    cases arrays
    cases objects
    cases closures
    cases scopes
    cases newer
    cases later
    rfl
  · rintro rfl
    refine ⟨.same (fun a => ?_) _, .same (fun _ => ongoing_entries_iff.2 rfl) _,
      .same (fun _ => ongoing_closures_iff.2 rfl) _, .same (fun _ => ongoing_scopes_iff.2 rfl) _, ?_, ?_⟩
    · rw [ongoing_value, Array.map_id]
    · rw [ongoing_array, Array.map_id]
      rfl
    · rw [ongoing_scope, Array.map_id]
      rfl

theorem ongoing_errors {e e' : RuntimeError} (errors : (ongoing created captured printed sameLatest).Errors e e') :
    e' = e := errors.eq (fun _ _ same => same) fun _ => rfl

theorem ongoing_completion (c : Completion) : (ongoing created captured printed sameLatest).completion c = c := by
  cases c with
  | normal v => rw [completion, ongoing_value, Option.map_id, id]
  | returned v => rw [completion, ongoing_value, id]

end Guise

end TinyScript
