import Mathlib.Data.Finset.Card
import Mathlib.Data.List.Sort
import TinyScript.Table

namespace TinyScript.Table

variable {α β : Type} {t t' : Table α} {key other : Text} {a : α} {pairs : List (Text × α)}

theorem lookup_entry (key other : Text) (a : α) (entries : List (Text × α)) :
    List.lookup other ((key, a) :: entries) = if other = key then some a else entries.lookup other := by
  by_cases same : other = key
  · rw [if_pos same, same, List.lookup_cons_self]
  · rw [if_neg same, List.lookup_cons, beq_eq_false_iff_ne.2 same]

theorem lookup_insertEntry (key other : Text) (a : α) (entries : List (Text × α)) :
    (insertEntry key a entries).lookup other = if other = key then some a else entries.lookup other := by
  fun_induction insertEntry key a entries with
  | case1 => exact lookup_entry key other a []
  | case2 k v more _ => exact lookup_entry key other a ((k, v) :: more)
  | case3 v more _ =>
    rw [lookup_entry, lookup_entry]
    split <;> rfl
  | case4 k v more _ ne ih =>
    rw [lookup_entry, lookup_entry, ih]
    by_cases same : other = k
    · have different : other ≠ key := fun equal => ne (equal.symm.trans same)
      rw [if_pos same, if_neg different, if_pos same]
    · rw [if_neg same, if_neg same]

theorem get?_insert (t : Table α) (key other : Text) (a : α) :
    (t.insert key a).get? other = if other = key then some a else t.get? other :=
  lookup_insertEntry key other a t.entries

theorem mem_entries_iff : (key, a) ∈ t.entries ↔ t.get? key = some a := by
  constructor
  · intro mem
    obtain ⟨before, after, same⟩ := List.append_of_mem mem
    have sorted := t.sorted
    rw [same, List.pairwise_append] at sorted
    refine List.lookup_eq_some_iff.2 ⟨before, after, same, fun entry inside => ?_⟩
    have less : entry.1 < key := sorted.2.2 entry inside (key, a) List.mem_cons_self
    exact bne_iff_ne.2 fun equal => List.lt_irrefl key (equal ▸ less)
  · intro found
    obtain ⟨before, after, same, _⟩ := List.lookup_eq_some_iff.1 found
    simp [same]

/-- A table is what is found in it. -/
theorem eq_of_get? (same : ∀ key, t.get? key = t'.get? key) : t = t' := by
  have irreflexive : Std.Irrefl fun a b : Text × α => a.1 < b.1 := ⟨fun a => List.lt_irrefl a.1⟩
  have asymmetric : Std.Asymm fun a b : Text × α => a.1 < b.1 := ⟨fun _ _ => List.lt_asymm⟩
  have entries : t.entries = t'.entries := by
    refine List.Pairwise.eq_of_mem_iff t.sorted t'.sorted fun entry => ?_
    rw [mem_entries_iff, mem_entries_iff, same]
  obtain ⟨_, _⟩ := t
  obtain ⟨_, _⟩ := t'
  cases entries
  rfl

/-- Among some pairs this is the last one with its key. -/
def IsLast (pairs : List (Text × α)) (key : Text) (a : α) : Prop :=
  ∃ before after, pairs = before ++ (key, a) :: after ∧ ∀ pair ∈ after, pair.1 ≠ key

theorem ofList_concat (pairs : List (Text × α)) (key : Text) (a : α) :
    ofList (pairs ++ [(key, a)]) = (ofList pairs).insert key a := by
  rw [ofList, List.foldl_append]
  rfl

theorem get?_ofList (pairs : List (Text × α)) (key : Text) : (ofList pairs).get? key = pairs.reverse.lookup key := by
  induction pairs using List.reverseRecOn with
  | nil => rfl
  | append_singleton pairs pair ih =>
    obtain ⟨k, a⟩ := pair
    rw [ofList_concat, get?_insert, ih, List.reverse_append, List.reverse_singleton, List.singleton_append,
      lookup_entry]

/-- Of pairs with one key the last one counts. -/
theorem get?_ofList_eq_some_iff : (ofList pairs).get? key = some a ↔ IsLast pairs key a := by
  rw [get?_ofList, List.lookup_eq_some_iff]
  constructor
  · rintro ⟨after, before, same, apart⟩
    refine ⟨before.reverse, after.reverse, ?_, fun pair mem => ?_⟩
    · rw [← List.reverse_reverse pairs, same]
      simp
    · exact (bne_iff_ne.1 (apart pair (List.mem_reverse.1 mem))).symm
  · rintro ⟨before, after, rfl, apart⟩
    refine ⟨after.reverse, before.reverse, by simp, fun pair mem => ?_⟩
    exact bne_iff_ne.2 (apart pair (List.mem_reverse.1 mem)).symm

theorem get?_ofList_eq_none_iff : (ofList pairs).get? key = none ↔ key ∉ pairs.map Prod.fst := by
  rw [get?_ofList, List.lookup_eq_none_iff, List.mem_map]
  constructor
  · rintro apart ⟨pair, mem, rfl⟩
    exact bne_iff_ne.1 (apart pair (List.mem_reverse.2 mem)) rfl
  · intro absent pair mem
    exact bne_iff_ne.2 fun same => absent ⟨pair, List.mem_reverse.1 mem, same.symm⟩

/-- The entries are the pairs that are the last ones with their keys. -/
theorem mem_entries_ofList : (key, a) ∈ (ofList pairs).entries ↔ IsLast pairs key a :=
  mem_entries_iff.trans get?_ofList_eq_some_iff

theorem mem_keys_iff : key ∈ t.entries.map Prod.fst ↔ t.get? key ≠ none := by
  rw [Option.ne_none_iff_exists', List.mem_map]
  constructor
  · rintro ⟨⟨_, a⟩, mem, rfl⟩
    exact ⟨a, mem_entries_iff.1 mem⟩
  · rintro ⟨a, found⟩
    exact ⟨(key, a), mem_entries_iff.2 found, rfl⟩

/-- A table has an entry for every key. -/
theorem size_ofList (pairs : List (Text × α)) : (ofList pairs).size = (pairs.map Prod.fst).toFinset.card := by
  have different : ((ofList pairs).entries.map Prod.fst).Nodup := by
    refine List.pairwise_map.2 ((ofList pairs).sorted.imp fun {first second} less same => ?_)
    rw [same] at less
    exact List.lt_irrefl _ less
  have same : ((ofList pairs).entries.map Prod.fst).toFinset = (pairs.map Prod.fst).toFinset := by
    ext key
    rw [List.mem_toFinset, List.mem_toFinset, mem_keys_iff, Ne, get?_ofList_eq_none_iff, not_not]
  rw [size, ← List.length_map Prod.fst, ← List.toFinset_card_of_nodup different, same]

theorem insertEntry_map (f : α → β) (key : Text) (a : α) (entries : List (Text × α)) :
    insertEntry key (f a) (entries.map fun e => (e.1, f e.2)) =
      (insertEntry key a entries).map fun e => (e.1, f e.2) := by
  fun_induction insertEntry key a entries with
  | case1 => rfl
  | case2 k v more less => rw [List.map_cons, insertEntry, if_pos less]; rfl
  | case3 v more notLess => rw [List.map_cons, insertEntry, if_neg notLess, if_pos rfl]; rfl
  | case4 k v more notLess ne ih => rw [List.map_cons, insertEntry, if_neg notLess, if_neg ne, ih]; rfl

theorem entries_ofList_map (f : α → β) (pairs : List (Text × α)) :
    (ofList (pairs.map fun e => (e.1, f e.2))).entries = (ofList pairs).entries.map fun e => (e.1, f e.2) := by
  suffices ∀ (t : Table α) (t' : Table β), t'.entries = t.entries.map (fun e => (e.1, f e.2)) →
      ((pairs.map fun e => (e.1, f e.2)).foldl (fun t pair => t.insert pair.1 pair.2) t').entries =
        (pairs.foldl (fun t pair => t.insert pair.1 pair.2) t).entries.map fun e => (e.1, f e.2) from
    this .empty .empty rfl
  induction pairs with
  | nil => exact fun _ _ same => same
  | cons pair pairs ih =>
    intro t t' same
    refine ih (t.insert pair.1 pair.2) (t'.insert pair.1 (f pair.2)) ?_
    show insertEntry pair.1 (f pair.2) t'.entries = _
    rw [same]
    exact insertEntry_map f pair.1 pair.2 t.entries

theorem get?_of_entries {f : α → β} {t : Table α} {t' : Table β}
    (same : t'.entries = t.entries.map fun e => (e.1, f e.2)) (key : Text) : t'.get? key = (t.get? key).map f := by
  rw [get?, get?, same]
  induction t.entries with
  | nil => rfl
  | cons e entries ih =>
    rw [List.map_cons, lookup_entry, ← Prod.mk.eta (p := e), lookup_entry, ih]
    split <;> rfl

/-- The table with other values under the same keys. -/
def map (f : α → β) (t : Table α) : Table β :=
  ⟨t.entries.map fun e => (e.1, f e.2), t.sorted.map _ fun _ _ less => less⟩

theorem get?_map {f : α → β} (t : Table α) (key : Text) : (t.map f).get? key = (t.get? key).map f :=
  get?_of_entries rfl key

theorem eq_map_of_entries {f : α → β} {t : Table α} {t' : Table β}
    (same : t'.entries = t.entries.map fun e => (e.1, f e.2)) : t' = t.map f :=
  eq_of_get? fun key => (get?_of_entries same key).trans (get?_map t key).symm

theorem ofList_map (f : α → β) (pairs : List (Text × α)) :
    ofList (pairs.map fun e => (e.1, f e.2)) = (ofList pairs).map f :=
  eq_map_of_entries (entries_ofList_map f pairs)

end TinyScript.Table
