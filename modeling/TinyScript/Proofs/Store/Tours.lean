import TinyScript.Proofs.Store.Reach

namespace TinyScript.Store

variable {s : Store} {seen pending more order order' : List Node} {k n m : Node}

/-- When some nodes have been seen, a search from others in turn enters nodes in this order: each new node, then what
there is to enter below it, then the rest. -/
inductive Tour (s : Store) : List Node → List Node → List Node → Prop
  | done {seen : List Node} : Tour s seen [] []
  | met {seen more order : List Node} {n : Node} : n ∈ seen → Tour s seen more order → Tour s seen (n :: more) order
  | enter {seen more below behind : List Node} {n : Node} : n ∉ seen → Tour s (seen ++ [n]) (s.children n) below →
      Tour s (seen ++ n :: below) more behind → Tour s seen (n :: more) (n :: (below ++ behind))

/-- A step into an aggregate that has not been seen. -/
def Onward (s : Store) (seen : List Node) (n m : Node) : Prop := s.Child n m ∧ m ∉ seen

/-- A way leads from a node of the order to another one, and of all on this way it has been entered first. -/
def Entrance (s : Store) (seen order : List Node) (m n : Node) : Prop :=
  ∃ before behind, order = before ++ m :: behind ∧ Relation.ReflTransGen (s.Onward (seen ++ before)) m n

/-- What has been seen later is no matter earlier. -/
theorem onward_of_append (way : Relation.ReflTransGen (s.Onward (seen ++ more)) n m) :
    Relation.ReflTransGen (s.Onward seen) n m :=
  Relation.ReflTransGen.mono (fun _ _ step => ⟨step.1, mt (List.mem_append_left more) step.2⟩) n m way

namespace Tour

theorem append (first : s.Tour seen pending order) (second : s.Tour (seen ++ order) more order') :
    s.Tour seen (pending ++ more) (order ++ order') := by
  induction first with
  | done => simpa using second
  | met old _ ih => exact .met old (ih second)
  | enter new below _ _ ih =>
    rw [List.cons_append, List.cons_append, List.append_assoc]
    refine .enter new below (ih ?_)
    simpa using second

theorem unique (tour : s.Tour seen pending order) (other : s.Tour seen pending order') : order' = order := by
  induction tour generalizing order' with
  | done =>
    cases other
    rfl
  | met old _ ih =>
    cases other with
    | met _ other => exact ih other
    | enter new => exact absurd old new
  | enter new _ _ below behind =>
    cases other with
    | met old => exact absurd old new
    | enter _ other other' =>
      obtain rfl := below other
      rw [behind other']

/-- Nothing that has been seen is entered. -/
theorem new (tour : s.Tour seen pending order) : ∀ n ∈ order, n ∉ seen := by
  induction tour with
  | done => exact nofun
  | met _ _ ih => exact ih
  | enter new _ _ below behind =>
    intro m mem
    rcases List.mem_cons.1 mem with rfl | mem
    · exact new
    · rcases List.mem_append.1 mem with inside | later
      · exact fun old => below m inside (List.mem_append_left _ old)
      · exact fun old => behind m later (List.mem_append_left _ old)

/-- Nothing is entered twice. -/
theorem nodup (tour : s.Tour seen pending order) : order.Nodup := by
  induction tour with
  | done => exact .nil
  | met _ _ ih => exact ih
  | @enter seen more below behind n _ first second ih ih' =>
    have apart : ∀ m ∈ behind, m ∉ n :: below := fun m later inside =>
      second.new m later (List.mem_append_right _ inside)
    refine List.nodup_cons.2 ⟨fun mem => ?_, List.nodup_append.2 ⟨ih, ih', fun m inside k later same => ?_⟩⟩
    · rcases List.mem_append.1 mem with inside | later
      · exact first.new n inside (List.mem_append_right _ List.mem_cons_self)
      · exact apart n later List.mem_cons_self
    · exact apart k later (same ▸ List.mem_cons_of_mem _ inside)

/-- When the search is over, all from which it has begun has been seen. -/
theorem covers (tour : s.Tour seen pending order) : ∀ n ∈ pending, n ∈ seen ++ order := by
  induction tour with
  | done => exact nofun
  | met old _ ih => exact List.forall_mem_cons.2 ⟨List.mem_append_left _ old, ih⟩
  | enter _ _ _ _ ih =>
    refine List.forall_mem_cons.2 ⟨by simp, fun m mem => ?_⟩
    simpa using ih m mem

/-- When the search is over, all that is in what it has entered has been seen. -/
theorem closed (tour : s.Tour seen pending order) : ∀ n ∈ order, ∀ m, s.Child n m → m ∈ seen ++ order := by
  induction tour with
  | done => exact nofun
  | met _ _ ih => exact ih
  | @enter seen more below behind n _ first _ ih ih' =>
    intro k mem m child
    rcases List.mem_cons.1 mem with rfl | mem
    · have met := first.covers m child
      simp only [List.mem_append, List.mem_cons, List.not_mem_nil] at met ⊢
      tauto
    · rcases List.mem_append.1 mem with inside | later
      · have met := ih k inside m child
        simp only [List.mem_append, List.mem_cons, List.not_mem_nil] at met ⊢
        tauto
      · simpa using ih' k later m child

/-- Whatever is entered is come to along new nodes. -/
theorem reached (tour : s.Tour seen pending order) :
    ∀ n ∈ order, ∃ first ∈ pending, first ∉ seen ∧ Relation.ReflTransGen (s.Onward seen) first n := by
  induction tour with
  | done => exact nofun
  | met _ _ ih =>
    intro m mem
    obtain ⟨first, inside, new, way⟩ := ih m mem
    exact ⟨first, List.mem_cons_of_mem _ inside, new, way⟩
  | @enter seen more below behind n new _ _ ih ih' =>
    intro m mem
    rcases List.mem_cons.1 mem with rfl | mem
    · exact ⟨m, List.mem_cons_self, new, .refl⟩
    · rcases List.mem_append.1 mem with inside | later
      · obtain ⟨first, child, unseen, way⟩ := ih m inside
        exact ⟨n, List.mem_cons_self, new, .head ⟨child, mt (List.mem_append_left _) unseen⟩ (onward_of_append way)⟩
      · obtain ⟨first, pending, unseen, way⟩ := ih' m later
        exact ⟨first, List.mem_cons_of_mem _ pending, mt (List.mem_append_left _) unseen, onward_of_append way⟩

/-- A way from what has been entered stays there. -/
theorem mem_of_onward (tour : s.Tour seen pending order) (mem : n ∈ order)
    (way : Relation.ReflTransGen (s.Onward seen) n m) : m ∈ order := by
  induction way with
  | refl => exact mem
  | tail _ step ih => exact (List.mem_append.1 (tour.closed _ ih _ step.1)).resolve_left step.2

/-- When nothing has been seen before, exactly what can be reached is entered. -/
theorem mem_iff (tour : s.Tour [] pending order) :
    n ∈ order ↔ ∃ first ∈ pending, Relation.ReflTransGen s.Child first n := by
  constructor
  · intro mem
    obtain ⟨first, inside, -, way⟩ := tour.reached n mem
    exact ⟨first, inside, Relation.ReflTransGen.mono (fun _ _ step => step.1) _ _ way⟩
  · rintro ⟨first, inside, way⟩
    refine tour.mem_of_onward (tour.covers first inside) ?_
    exact Relation.ReflTransGen.mono (fun _ _ child => ⟨child, List.not_mem_nil⟩) _ _ way

end Tour

theorem entrance_cons : s.Entrance seen (k :: order) m n ↔
    m = k ∧ Relation.ReflTransGen (s.Onward seen) k n ∨ s.Entrance (seen ++ [k]) order m n := by
  constructor
  · rintro ⟨before, behind, same, way⟩
    cases before with
    | nil =>
      cases same
      exact .inl ⟨rfl, by simpa using way⟩
    | cons j before =>
      cases same
      exact .inr ⟨before, behind, rfl, by simpa using way⟩
  · rintro (⟨rfl, way⟩ | ⟨before, behind, rfl, way⟩)
    · exact ⟨[], order, rfl, by simpa using way⟩
    · exact ⟨k :: before, behind, rfl, by simpa using way⟩

theorem entrance_append : s.Entrance seen (order ++ order') m n ↔
    s.Entrance seen order m n ∨ s.Entrance (seen ++ order) order' m n := by
  induction order generalizing seen with
  | nil =>
    have none : ¬ s.Entrance seen [] m n := by rintro ⟨before, behind, same, _⟩; simp at same
    simp [none]
  | cons k order ih => rw [List.cons_append, entrance_cons, entrance_cons, ih, or_assoc, List.append_cons seen k order]

/-- An entrance leads only to what has been entered. -/
theorem Entrance.mem (entrance : s.Entrance seen order m n) (tour : s.Tour seen pending order) : n ∈ order := by
  obtain ⟨before, behind, rfl, way⟩ := entrance
  exact tour.mem_of_onward (by simp) (onward_of_append way)

/-- Below a path, a node of the order holds one on the path, or one from which the way has come to it. -/
def TurnsBack (s : Store) (path seen order : List Node) (n : Node) : Prop :=
  n ∈ order ∧ ∃ m, s.Child n m ∧ (m ∈ path ∨ s.Entrance seen order m n)

variable {path below : List Node}

theorem not_turnsBack_nil : ¬ s.TurnsBack path seen [] n := fun turns => List.not_mem_nil turns.1

theorem turnsBack_append (tour : s.Tour seen pending order) (tour' : s.Tour (seen ++ order) more order') :
    s.TurnsBack path seen (order ++ order') n ↔
      s.TurnsBack path seen order n ∨ s.TurnsBack path (seen ++ order) order' n := by
  have apart (first : n ∈ order) : n ∉ order' := fun later => tour'.new n later (List.mem_append_right _ first)
  constructor
  · rintro ⟨mem, m, child, back⟩
    rw [entrance_append] at back
    rcases List.mem_append.1 mem with first | later
    · refine .inl ⟨first, m, child, back.imp_right fun entrance => entrance.resolve_right fun other => ?_⟩
      exact apart first (other.mem tour')
    · refine .inr ⟨later, m, child, back.imp_right fun entrance => entrance.resolve_left fun other => ?_⟩
      exact apart (other.mem tour) later
  · rintro (⟨mem, m, child, back⟩ | ⟨mem, m, child, back⟩)
    · exact ⟨List.mem_append_left _ mem, m, child, back.imp_right fun entrance => entrance_append.2 (.inl entrance)⟩
    · exact ⟨List.mem_append_right _ mem, m, child, back.imp_right fun entrance => entrance_append.2 (.inr entrance)⟩

/-- The node that is entered first is on the path of those below it. -/
theorem turnsBack_cons (tour : s.Tour (seen ++ [k]) (s.children k) below) :
    s.TurnsBack path seen (k :: below) n ↔
      (n = k ∧ ∃ m, s.Child k m ∧ m ∈ k :: path) ∨ s.TurnsBack (k :: path) (seen ++ [k]) below n := by
  have apart : k ∉ below := fun mem => tour.new k mem (List.mem_append_right _ List.mem_cons_self)
  constructor
  · rintro ⟨mem, m, child, back⟩
    rw [entrance_cons] at back
    rcases List.mem_cons.1 mem with rfl | mem
    · refine .inl ⟨rfl, m, child, List.mem_cons.2 ?_⟩
      rcases back with onPath | ⟨same, -⟩ | entrance
      · exact .inr onPath
      · exact .inl same
      · exact absurd (entrance.mem tour) apart
    · refine .inr ⟨mem, m, child, ?_⟩
      rcases back with onPath | ⟨rfl, -⟩ | entrance
      · exact .inl (List.mem_cons_of_mem _ onPath)
      · exact .inl List.mem_cons_self
      · exact .inr entrance
  · rintro (⟨rfl, m, child, onPath⟩ | ⟨mem, m, child, back⟩)
    · refine ⟨List.mem_cons_self, m, child, ?_⟩
      rcases List.mem_cons.1 onPath with rfl | onPath
      · exact .inr (entrance_cons.2 (.inl ⟨rfl, .refl⟩))
      · exact .inl onPath
    · refine ⟨List.mem_cons_of_mem _ mem, m, child, ?_⟩
      rcases back with onPath | entrance
      · rcases List.mem_cons.1 onPath with rfl | onPath
        · obtain ⟨first, inside, unseen, way⟩ := tour.reached n mem
          have step : s.Onward seen m first := ⟨inside, mt (List.mem_append_left _) unseen⟩
          exact .inr (entrance_cons.2 (.inl ⟨rfl, .head step (onward_of_append way)⟩))
        · exact .inl onPath
      · exact .inr (entrance_cons.2 (.inr entrance))

end TinyScript.Store
