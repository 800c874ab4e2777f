import TinyScript.Proofs.Store.Display
import TinyScript.Proofs.Store.Shrinking

namespace TinyScript

/-- The node of a value that holds other values. -/
def Value.aggregate? (v : Value) : Option Node := v.node?.filter Node.isAggregate

/-- A value as it is printed: without parts, with all its parts, or as a mark in its place. -/
inductive Drawing where
  | plain (v : Value)
  | whole (v : Value) (parts : List Drawing)
  | mark (v : Value)

namespace Drawing

def value : Drawing → Value
  | plain v | whole v _ | mark v => v

/-- In a drawing with some aggregates around it there is a part, with these aggregates around it. The innermost is the
first. -/
inductive Within : (around : List Node) → Drawing → List Node → Drawing → Prop
  | here {around : List Node} {d : Drawing} : Within around d around d
  | inside {around ancestors : List Node} {v : Value} {n : Node} {parts : List Drawing} {part d : Drawing} :
      v.aggregate? = some n → part ∈ parts → Within (n :: around) part ancestors d →
      Within around (.whole v parts) ancestors d

end Drawing

namespace Store

variable {s : Store} {around ancestors : List Node} {v w : Value} {n m : Node} {d : Drawing} {parts : List Drawing}
  {depth : Nat}

/-- The drawing of a value with some aggregates around it. An aggregate is drawn as a mark where it is among those
around it, and nowhere else. -/
structure Shows (s : Store) (around : List Node) (v : Value) (d : Drawing) : Prop where
  value : d.value = v
  plain : ∀ ancestors w, d.Within around ancestors (.plain w) → w.aggregate? = none
  whole : ∀ ancestors w parts, d.Within around ancestors (.whole w parts) →
    ∃ n, w.aggregate? = some n ∧ n ∉ ancestors ∧ parts.map Drawing.value = s.held n
  mark : ∀ ancestors w, d.Within around ancestors (.mark w) → ∃ n, w.aggregate? = some n ∧ n ∈ ancestors

/-- The text of an aggregate with the given texts of what it holds. -/
def framed (s : Store) : Value → List Text → Text
  | .array _, texts => "[" ++ Text.join ", " texts ++ "]"
  | .object id, texts =>
    "\x7b" ++ Text.join ", " ((s.entries id).entries.zipWith (fun e text => e.1 ++ ": " ++ text) texts) ++ "\x7d"
  | _, _ => []

/-- The mark in the place of an aggregate. -/
def markText : Value → Text
  | .array _ => "[...]"
  | _ => "\x7b...\x7d"

mutual

/-- The text of a drawing. What stands around it does not matter. Texts are quoted inside of aggregates. -/
def drawn (s : Store) (quoted : Bool) : Drawing → Text
  | .plain v => s.text quoted 0 [] v
  | .whole v parts => s.framed v (s.drawnParts parts)
  | .mark v => markText v

def drawnParts (s : Store) : List Drawing → List Text
  | [] => []
  | part :: parts => s.drawn true part :: s.drawnParts parts

end

theorem drawnParts_eq_map (s : Store) (parts : List Drawing) : s.drawnParts parts = parts.map (s.drawn true) := by
  induction parts with
  | nil => rfl
  | cons part parts ih => rw [drawnParts, ih, List.map_cons]

/-- The drawing of a value with some aggregates around it, as far as the depth allows. -/
def drawing (s : Store) : Nat → List Node → Value → Drawing
  | depth, around, v =>
    match v.aggregate?, depth with
    | none, _ => .plain v
    | some _, 0 => .mark v
    | some n, depth + 1 => if n ∈ around then .mark v else .whole v ((s.held n).map (s.drawing depth (n :: around)))

theorem drawing_plain (none : v.aggregate? = none) : s.drawing depth around v = .plain v := by
  unfold drawing
  simp [none]

theorem drawing_mark (node : v.aggregate? = some n) (inside : n ∈ around) : s.drawing depth around v = .mark v := by
  unfold drawing
  cases depth <;> simp [node, inside]

theorem drawing_whole (node : v.aggregate? = some n) (new : n ∉ around) :
    s.drawing (depth + 1) around v = .whole v ((s.held n).map (s.drawing depth (n :: around))) := by
  conv_lhs => unfold drawing
  simp [node, new]

/-- Whatever the depth, the text of a value is the text of its drawing. -/
theorem text_eq_drawn (s : Store) (quoted : Bool) (depth : Nat) (around : List Node) (v : Value) :
    s.text quoted depth around v = s.drawn quoted (s.drawing depth around v) := by
  induction depth generalizing quoted around v with
  | zero => cases v <;> rfl
  | succ depth ih =>
    cases v with
    | array id =>
      by_cases inside : Node.array id ∈ around
      · rw [text, if_pos inside, drawing_mark rfl inside, drawn]
        rfl
      · rw [text, if_neg inside, drawing_whole rfl inside, drawn, framed, drawnParts_eq_map, List.map_map, held]
        simp only [Function.comp_def, ← ih]
    | object id =>
      by_cases inside : Node.object id ∈ around
      · rw [text, if_pos inside, drawing_mark rfl inside, drawn]
        rfl
      · rw [text, if_neg inside, drawing_whole rfl inside, drawn, framed, drawnParts_eq_map, List.map_map, held,
          Table.values, List.map_map, List.zipWith_map_right, List.zipWith_self]
        simp only [Function.comp_apply, ← ih]
    | _ => rfl

theorem drawing_value (s : Store) (depth : Nat) (around : List Node) (v : Value) :
    (s.drawing depth around v).value = v := by
  unfold drawing
  split
  · rfl
  · rfl
  · split <;> rfl

theorem Shows.of_plain (none : v.aggregate? = none) : s.Shows around v (.plain v) where
  value := rfl
  plain ancestors w part := by
    cases part
    exact none
  whole ancestors w parts part := by cases part
  mark ancestors w part := by cases part

theorem Shows.of_mark (node : v.aggregate? = some n) (mem : n ∈ around) : s.Shows around v (.mark v) where
  value := rfl
  plain ancestors w part := by cases part
  whole ancestors w parts part := by cases part
  mark ancestors w part := by
    cases part
    exact ⟨n, node, mem⟩

theorem Shows.of_whole (node : v.aggregate? = some n) (new : n ∉ around) (all : parts.map Drawing.value = s.held n)
    (shows : ∀ part ∈ parts, s.Shows (n :: around) part.value part) : s.Shows around v (.whole v parts) where
  value := rfl
  plain ancestors w inner := by
    cases inner with
    | inside node' mem inner =>
      cases node.symm.trans node'
      exact (shows _ mem).plain ancestors w inner
  whole ancestors w parts inner := by
    cases inner with
    | here => exact ⟨n, node, new, all⟩
    | inside node' mem inner =>
      cases node.symm.trans node'
      exact (shows _ mem).whole ancestors w parts inner
  mark ancestors w inner := by
    cases inner with
    | inside node' mem inner =>
      cases node.symm.trans node'
      exact (shows _ mem).mark ancestors w inner

theorem Shows.part {part : Drawing} (shows : s.Shows around v (.whole w parts)) (node : w.aggregate? = some n)
    (mem : part ∈ parts) : s.Shows (n :: around) part.value part where
  value := rfl
  plain ancestors w inner := shows.plain ancestors w (.inside node mem inner)
  whole ancestors w parts inner := shows.whole ancestors w parts (.inside node mem inner)
  mark ancestors w inner := shows.mark ancestors w (.inside node mem inner)

theorem isAggregate_of_aggregate? (node : v.aggregate? = some n) : n.isAggregate := (Option.filter_eq_some_iff.1 node).2

/-- Only what is there holds something. -/
theorem has_of_mem_held (mem : v ∈ s.held n) : s.Has n := by
  refine Classical.byContradiction fun missing => ?_
  cases n with
  | array id => simp [held, elements, Array.getElem?_eq_none (Nat.not_lt.1 missing)] at mem
  | object id => 
    simp [held, entries, Array.getElem?_eq_none (Nat.not_lt.1 missing), Table.values, Table.empty] at mem
  | closure id => cases mem
  | scope id => cases mem

theorem shows_drawing (nested : s.Nested around) (enough : s.aggregateCount < depth + around.length) (v : Value) :
    s.Shows around v (s.drawing depth around v) := by
  induction depth generalizing around v with
  | zero =>
    have bound := length_le_aggregateCount nested.nodup nested.has nested.isAggregate
    omega
  | succ depth ih =>
    cases node : v.aggregate? with
    | none => exact drawing_plain node ▸ .of_plain node
    | some n =>
      by_cases inside : n ∈ around
      · exact drawing_mark node inside ▸ .of_mark node inside
      · rw [drawing_whole node inside]
        refine .of_whole node inside ?_ fun part mem => ?_
        · simp [Function.comp_def, drawing_value]
        · obtain ⟨w, held, rfl⟩ := List.mem_map.1 mem
          have deeper := nested.cons inside (has_of_mem_held held) (isAggregate_of_aggregate? node)
          rw [drawing_value]
          exact ih deeper (by rw [List.length_cons]; omega) w

/-- A value has no other drawing. -/
theorem Shows.eq_drawing (nested : s.Nested around) (enough : s.aggregateCount < depth + around.length)
    (shows : s.Shows around v d) : d = s.drawing depth around v := by
  induction depth generalizing around v d with
  | zero =>
    have bound := length_le_aggregateCount nested.nodup nested.has nested.isAggregate
    omega
  | succ depth ih =>
    cases d with
    | plain w =>
      obtain rfl : w = v := shows.value
      rw [drawing_plain (shows.plain _ _ .here)]
    | mark w =>
      obtain rfl : w = v := shows.value
      obtain ⟨n, node, inside⟩ := shows.mark _ _ .here
      rw [drawing_mark node inside]
    | whole w parts =>
      obtain rfl : w = v := shows.value
      obtain ⟨n, node, new, all⟩ := shows.whole _ _ _ .here
      rw [drawing_whole node new, ← all, List.map_map]
      congr 1
      refine (List.map_id parts).symm.trans (List.map_congr_left fun part mem => ?_)
      have held : part.value ∈ s.held n := all ▸ List.mem_map_of_mem mem
      exact ih (nested.cons new (has_of_mem_held held) (isAggregate_of_aggregate? node))
        (by rw [List.length_cons]; omega) (shows.part node mem)

/-- Some way from the value leads to an aggregate that holds itself. -/
def LeadsToCycle (s : Store) (v : Value) : Prop :=
  ∃ n m, v.aggregate? = some n ∧ Relation.ReflTransGen s.Child n m ∧ s.HoldsItself m

theorem child_of_held (held : w ∈ s.held n) (node : w.aggregate? = some m) : s.Child n m := by
  obtain ⟨node, isAggregate⟩ := Option.filter_eq_some_iff.1 node
  exact List.mem_filter.2 ⟨List.mem_filterMap.2 ⟨w, held, node⟩, isAggregate⟩

theorem held_of_child (child : s.Child n m) : ∃ w ∈ s.held n, w.aggregate? = some m := by
  obtain ⟨edge, isAggregate⟩ := List.mem_filter.1 child
  obtain ⟨w, held, node⟩ := List.mem_filterMap.1 edge
  exact ⟨w, held, Option.filter_eq_some_iff.2 ⟨node, isAggregate⟩⟩

/-- The aggregates that have come around a part lie on the way to it. -/
theorem Shows.leads {d' : Drawing} (within : d.Within around ancestors d') :
    ∀ {v}, s.Shows around v d → ∀ {m}, d'.value.aggregate? = some m → ∃ n, v.aggregate? = some n ∧
      Relation.ReflTransGen s.Child n m ∧ ∀ a ∈ ancestors, a ∈ around ∨
        Relation.ReflTransGen s.Child n a ∧ Relation.TransGen s.Child a m := by
  induction within with
  | here =>
    intro v shows m node
    exact ⟨m, shows.value ▸ node, .refl, fun a mem => .inl mem⟩
  | @inside around ancestors w n parts part d' node mem _ ih =>
    intro v shows m last
    obtain rfl : w = v := shows.value
    obtain ⟨n', node', -, all⟩ := shows.whole _ _ _ .here
    cases node.symm.trans node'
    obtain ⟨k, inner, reaches, leads⟩ := ih (shows.part node mem) last
    have child : s.Child n k := child_of_held (all ▸ List.mem_map_of_mem mem) inner
    refine ⟨n, node, .head child reaches, fun a found => ?_⟩
    rcases leads a found with near | ⟨before, after⟩
    · rcases List.mem_cons.1 near with rfl | near
      · exact .inr ⟨.refl, .head' child reaches⟩
      · exact .inl near
    · exact .inr ⟨.head child before, after⟩

/-- A mark closes a cycle. -/
theorem Shows.leadsToCycle (shows : s.Shows [] v d) (marked : d.Within [] ancestors (.mark w)) : s.LeadsToCycle v := by
  obtain ⟨m, node, inside⟩ := shows.mark _ _ marked
  obtain ⟨n, first, -, leads⟩ := Shows.leads marked shows node
  obtain ⟨before, cycle⟩ := (leads m inside).resolve_left List.not_mem_nil
  exact ⟨n, m, first, before, cycle⟩

/-- Without a mark every way on from the value ends. -/
theorem broken_of_unmarked (node : v.aggregate? = some n)
    (unmarked : ∀ ancestors w, ¬ (s.drawing depth around v).Within around ancestors (.mark w)) : s.Broken [] n := by
  induction depth generalizing around v n with
  | zero =>
    have mark : s.drawing 0 around v = .mark v := by
      unfold drawing
      simp [node]
    rw [mark] at unmarked
    exact absurd .here (unmarked around v)
  | succ depth ih =>
    by_cases inside : n ∈ around
    · rw [drawing_mark node inside] at unmarked
      exact absurd .here (unmarked around v)
    · rw [drawing_whole node inside] at unmarked
      refine .inner fun m child => ?_
      obtain ⟨w, held, inner⟩ := held_of_child child
      exact ih inner fun ancestors w' marked =>
        unmarked ancestors w' (.inside node (List.mem_map_of_mem held) marked)

theorem Broken.of_reaches (broken : s.Broken [] n) (reaches : Relation.ReflTransGen s.Child n m) : s.Broken [] m := by
  induction reaches with
  | refl => exact broken
  | tail _ child ih =>
    cases ih with
    | emptied mem => cases mem
    | inner broken => exact broken _ child

/-- Where every way on from a value ends, no cycle is in reach. -/
theorem not_leadsToCycle (broken : ∀ n, v.aggregate? = some n → s.Broken [] n) : ¬ s.LeadsToCycle v := by
  rintro ⟨n, m, node, reaches, cyclic⟩
  exact ((broken n node).of_reaches reaches).not_holdsItself (fun _ _ child => ⟨child, List.not_mem_nil⟩) cyclic

/-- What stands around a value matters only as far as the value leads there. -/
theorem drawing_around {around' : List Node}
    (same : ∀ n, v.aggregate? = some n → ∀ m, Relation.ReflTransGen s.Child n m → (m ∈ around ↔ m ∈ around')) :
    s.drawing depth around v = s.drawing depth around' v := by
  induction depth generalizing around around' v with
  | zero =>
    unfold drawing
    cases v.aggregate? <;> rfl
  | succ depth ih =>
    cases node : v.aggregate? with
    | none => rw [drawing_plain node, drawing_plain node]
    | some n =>
      have here := same n node n .refl
      by_cases inside : n ∈ around
      · rw [drawing_mark node inside, drawing_mark node (here.1 inside)]
      · rw [drawing_whole node inside, drawing_whole node (mt here.2 inside)]
        congr 1
        refine List.map_congr_left fun w held => ih fun k inner m reaches => ?_
        rw [List.mem_cons, List.mem_cons, same n node m (.head (child_of_held held inner) reaches)]

/-- What is in an aggregate that does not hold itself has the text there that it has by itself. -/
theorem text_inside (held : w ∈ s.held n) (isAggregate : n.isAggregate) (acyclic : ¬ s.HoldsItself n)
    (enough : s.aggregateCount < depth + 1) : s.text true depth [n] w = s.inspect w := by
  have nested : s.Nested [n] := Nested.nil.cons List.not_mem_nil (has_of_mem_held held) isAggregate
  have alone : s.drawing (depth + 1) [n] w = s.drawing (depth + 1) [] w := by
    refine drawing_around fun k inner m reaches => ⟨fun mem => ?_, fun mem => by cases mem⟩
    obtain rfl := List.mem_singleton.1 mem
    exact absurd (.head' (child_of_held held inner) reaches) acyclic
  rw [← text_succ nested enough, text_eq_drawn, alone, ← text_eq_drawn, text_eq_of_lt enough]
  rfl

/-- Where no cycle is in reach, the text of an aggregate is made of the texts that its parts have by themselves. -/
theorem text_eq_framed (node : v.aggregate? = some n) (acyclic : ¬ s.LeadsToCycle v) (quoted : Bool)
    (enough : s.aggregateCount < depth) :
    s.text quoted depth [] v = s.framed v ((s.held n).map s.inspect) := by
  obtain ⟨depth, rfl⟩ : ∃ k, depth = k + 1 := ⟨depth - 1, by omega⟩
  rw [text_eq_drawn, drawing_whole node List.not_mem_nil, drawn, drawnParts_eq_map, List.map_map]
  congr 1
  refine List.map_congr_left fun w held => ?_
  rw [Function.comp_apply, ← text_eq_drawn]
  exact text_inside held (isAggregate_of_aggregate? node) (fun cyclic => acyclic ⟨n, n, node, .refl, cyclic⟩) enough

/-- Printing a value comes to an end, however arrays and objects hold each other. Every depth above the number of
aggregates gives the text of one finite drawing, which has a mark exactly where an aggregate stands inside of itself.
There are marks only if the value leads to a cycle. If it does not, the text is made of the texts of the parts, which
are printed in full wherever they are held. -/
theorem text_drawn (s : Store) (v : Value) :
    ∃ d : Drawing, (∀ other, s.Shows [] v other ↔ other = d) ∧
      (∀ quoted depth, s.aggregateCount < depth → s.text quoted depth [] v = s.drawn quoted d) ∧
      s.display v = s.drawn false d ∧ s.inspect v = s.drawn true d ∧
      ((∃ ancestors w, d.Within [] ancestors (.mark w)) ↔ s.LeadsToCycle v) ∧
      (¬ s.LeadsToCycle v → ∀ n, v.aggregate? = some n →
        s.display v = s.framed v ((s.held n).map s.inspect) ∧ s.inspect v = s.framed v ((s.held n).map s.inspect)) := by
  let depth := s.aggregateCount + 1
  have enough : s.aggregateCount < depth := Nat.lt_succ_self _
  have shows : s.Shows [] v (s.drawing depth [] v) := shows_drawing .nil enough v
  refine ⟨s.drawing depth [] v, fun other => ⟨fun shows => shows.eq_drawing .nil enough, fun same => same ▸ shows⟩,
    fun quoted more above => ?_, text_eq_drawn .., text_eq_drawn .., ⟨?_, ?_⟩, fun acyclic n node => ?_⟩
  · rw [text_eq_of_lt above, text_eq_drawn]
  · rintro ⟨ancestors, w, marked⟩
    exact shows.leadsToCycle marked
  · intro cyclic
    by_contra unmarked
    exact not_leadsToCycle (fun n node => broken_of_unmarked node fun ancestors w marked =>
      unmarked ⟨ancestors, w, marked⟩) cyclic
  · exact ⟨text_eq_framed node acyclic false enough, text_eq_framed node acyclic true enough⟩

example : ring.display (.array 0) = ("[\x7bnext: \x7bnext: \x7b...\x7d\x7d\x7d]" : Text) := by decide

end Store

end TinyScript
