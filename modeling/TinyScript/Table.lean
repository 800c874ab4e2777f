import TinyScript.Text

namespace TinyScript

/-- A table binds texts to values. Its entries stand in increasing byte order of their keys, each key once, so it is
listed in the same order however it was filled. -/
structure Table (α : Type) where
  entries : List (Text × α)
  sorted : entries.Pairwise (fun a b => a.1 < b.1)

namespace Table

variable {α : Type}

def empty : Table α := ⟨[], .nil⟩

def size (t : Table α) : Nat := t.entries.length

def get? (t : Table α) (key : Text) : Option α := t.entries.lookup key

def contains (t : Table α) (key : Text) : Bool := (t.get? key).isSome

def values (t : Table α) : List α := t.entries.map (·.2)

/-- Puts an entry in its place, or in the place of the entry with its key. -/
def insertEntry (key : Text) (value : α) : List (Text × α) → List (Text × α)
  | [] => [(key, value)]
  | (k, v) :: more =>
    if key < k then (key, value) :: (k, v) :: more
    else if key = k then (key, value) :: more
    else (k, v) :: insertEntry key value more

theorem mem_insertEntry {key : Text} {value : α} {entries : List (Text × α)} {entry : Text × α}
    (h : entry ∈ insertEntry key value entries) : entry = (key, value) ∨ entry ∈ entries := by
  fun_induction insertEntry key value entries with
  | case1 => exact .inl (List.mem_singleton.1 h)
  | case2 k v more _ => exact List.mem_cons.1 h
  | case3 v more _ => exact (List.mem_cons.1 h).imp_right (List.mem_cons_of_mem _)
  | case4 k v more _ _ ih =>
    rcases List.mem_cons.1 h with rfl | h
    · exact .inr List.mem_cons_self
    · exact (ih h).imp_right (List.mem_cons_of_mem _)

theorem lt_of_not_lt_of_ne {a b : Text} (notLt : ¬ a < b) (ne : a ≠ b) : b < a :=
  (List.le_iff_lt_or_eq.1 (List.not_lt.1 notLt)).resolve_right ne.symm

theorem insertEntry_sorted (key : Text) (value : α) {entries : List (Text × α)}
    (sorted : entries.Pairwise (fun a b => a.1 < b.1)) :
    (insertEntry key value entries).Pairwise (fun a b => a.1 < b.1) := by
  fun_induction insertEntry key value entries with
  | case1 => exact List.pairwise_singleton _ _
  | case2 k v more less =>
    refine List.pairwise_cons.2 ⟨fun entry h => ?_, sorted⟩
    rcases List.mem_cons.1 h with rfl | h
    · exact less
    · exact List.lt_trans less (List.rel_of_pairwise_cons sorted h)
  | case3 v more _ =>
    obtain ⟨above, sorted⟩ := List.pairwise_cons.1 sorted
    exact List.pairwise_cons.2 ⟨above, sorted⟩
  | case4 k v more notLess ne ih =>
    obtain ⟨above, sorted⟩ := List.pairwise_cons.1 sorted
    refine List.pairwise_cons.2 ⟨fun entry h => ?_, ih sorted⟩
    rcases mem_insertEntry h with rfl | h
    · exact lt_of_not_lt_of_ne notLess ne
    · exact above entry h

/-- Binds a key, whether or not it was bound before. -/
def insert (t : Table α) (key : Text) (value : α) : Table α :=
  ⟨insertEntry key value t.entries, insertEntry_sorted key value t.sorted⟩

/-- The table of some pairs. Of pairs with one key the last one counts. -/
def ofList (pairs : List (Text × α)) : Table α :=
  pairs.foldl (fun t pair => t.insert pair.1 pair.2) empty

end Table

end TinyScript
