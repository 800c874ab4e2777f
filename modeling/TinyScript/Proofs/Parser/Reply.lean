import TinyScript.Program.Parser

namespace TinyScript

/-- The kind of the next token. Behind the last one the source ends. -/
def kindAt (source : List Token) : Token.Kind := (source.head?.map (·.kind)).getD .endOfInput

@[simp] theorem kindAt_nil : kindAt [] = .endOfInput := rfl

@[simp] theorem kindAt_cons (t : Token) (rest : List Token) : kindAt (t :: rest) = t.kind := rfl

namespace Reply

variable {α : Type}

/-- The tokens at which reading goes on. -/
def rest : Reply α → List Token
  | ok _ rest _ => rest
  | failed resume _ => resume

@[simp] theorem behind_nil (r : Reply α) : r.behind [] = r := by cases r <;> rfl

@[simp] theorem rest_behind (earlier : List GrammarError) (r : Reply α) : (r.behind earlier).rest = r.rest := by
  cases r <;> rfl

/-- The same reply with another value. -/
def map {β : Type} (f : α → β) : Reply α → Reply β
  | ok value rest errors => ok (f value) rest errors
  | failed resume errors => failed resume errors

theorem map_map {β γ : Type} (f : α → β) (g : β → γ) (r : Reply α) : (r.map f).map g = r.map fun a => g (f a) := by
  cases r <;> rfl

theorem behind_eq_ok_iff {earlier errors : List GrammarError} {r : Reply α} {a : α} {rest : List Token} :
    r.behind earlier = .ok a rest errors ↔ ∃ later, r = .ok a rest later ∧ errors = earlier ++ later := by
  cases r with
  | ok b mid later =>
    simp only [behind, ok.injEq]
    constructor
    · rintro ⟨rfl, rfl, rfl⟩
      exact ⟨later, ⟨rfl, rfl, rfl⟩, rfl⟩
    · rintro ⟨_, ⟨rfl, rfl, rfl⟩, rfl⟩
      exact ⟨rfl, rfl, rfl⟩
  | failed resume later => simp [behind]

theorem behind_eq_failed_iff {earlier errors : List GrammarError} {r : Reply α} {resume : List Token} :
    r.behind earlier = .failed resume errors ↔ ∃ later, r = .failed resume later ∧ errors = earlier ++ later := by
  cases r with
  | ok b mid later => simp [behind]
  | failed resume later =>
    simp only [behind, failed.injEq]
    constructor
    · rintro ⟨rfl, rfl⟩
      exact ⟨later, ⟨rfl, rfl⟩, rfl⟩
    · rintro ⟨_, ⟨rfl, rfl⟩, rfl⟩
      exact ⟨rfl, rfl⟩

end Reply

namespace Parser

variable {α β : Type} {p q : Parser α} {f g : α → Parser β} {finish : Location} {source : List Token}

theorem bind_ok {a : α} {rest : List Token} {errors : List GrammarError}
    (run : p finish source = .ok a rest errors) :
    (p >>= f) finish source = (f a finish rest).behind errors := by
  change Parser.bind p f finish source = _
  rw [Parser.bind, run]

theorem bind_failed {resume : List Token} {errors : List GrammarError}
    (run : p finish source = .failed resume errors) : (p >>= f) finish source = .failed resume errors := by
  change Parser.bind p f finish source = _
  rw [Parser.bind, run]

theorem bind_eq_ok_iff {b : β} {rest : List Token} {errors : List GrammarError} :
    (p >>= f) finish source = .ok b rest errors ↔ ∃ a mid first later,
      p finish source = .ok a mid first ∧ f a finish mid = .ok b rest later ∧ errors = first ++ later := by
  cases run : p finish source with
  | ok a mid first =>
    rw [bind_ok run, Reply.behind_eq_ok_iff]
    constructor
    · rintro ⟨later, reply, rfl⟩
      exact ⟨a, mid, first, later, rfl, reply, rfl⟩
    · rintro ⟨_, _, _, later, same, reply, rfl⟩
      cases same
      exact ⟨later, reply, rfl⟩
  | failed resume first => simp [bind_failed run]

theorem bind_eq_failed_iff {resume : List Token} {errors : List GrammarError} :
    (p >>= f) finish source = .failed resume errors ↔ p finish source = .failed resume errors ∨
      ∃ a mid first later, p finish source = .ok a mid first ∧ f a finish mid = .failed resume later ∧
        errors = first ++ later := by
  cases run : p finish source with
  | ok a mid first =>
    rw [bind_ok run, Reply.behind_eq_failed_iff]
    constructor
    · rintro ⟨later, reply, rfl⟩
      exact .inr ⟨a, mid, first, later, rfl, reply, rfl⟩
    · rintro (same | ⟨_, _, _, later, same, reply, rfl⟩)
      · cases same
      · cases same
        exact ⟨later, reply, rfl⟩
  | failed resume first => simp [bind_failed run]

/-- Sequences of equal parts reply alike. The second parts only have to agree where the first one arrives. -/
theorem bind_congr (first : p finish source = q finish source)
    (later : ∀ a rest errors, p finish source = .ok a rest errors → f a finish rest = g a finish rest) :
    (p >>= f) finish source = (q >>= g) finish source := by
  cases run : p finish source with
  | ok a rest errors => rw [bind_ok run, bind_ok (first ▸ run), later a rest errors run]
  | failed resume errors => rw [bind_failed run, bind_failed (first ▸ run)]

theorem look_kind : (source.head?.getD (.finish finish)).kind = kindAt source := by cases source <;> rfl

@[simp] theorem pure_apply (a : α) : (pure a : Parser α) finish source = .ok a source [] := rfl

@[simp] theorem pure_bind (a : α) : ((pure a : Parser α) >>= f) finish source = f a finish source := by
  rw [bind_ok (pure_apply a), Reply.behind_nil]

@[simp] theorem look_bind (f : Token → Parser β) :
    (look >>= f) finish source = f (source.head?.getD (.finish finish)) finish source := by
  rw [bind_ok rfl, Reply.behind_nil]

@[simp] theorem lookBehind_bind (f : Token.Kind → Parser β) :
    (lookBehind >>= f) finish source = f (source.tail.head?.getD (.finish finish)).kind finish source := by
  rw [bind_ok rfl, Reply.behind_nil]

@[simp] theorem skip_bind (f : Unit → Parser β) : (skip >>= f) finish source = f () finish source.tail := by
  rw [bind_ok rfl, Reply.behind_nil]

@[simp] theorem take_bind (fault : GrammarFault) (f : Token → Parser β) (t : Token) :
    (take fault >>= f) finish (t :: source) = f t finish source := by
  rw [bind_ok rfl, Reply.behind_nil]

theorem accept_eq_some {kind : Token.Kind} {t : Token} (same : t.kind = kind) :
    accept kind finish (t :: source) = .ok (some t) source [] := if_pos same

theorem accept_eq_none {kind : Token.Kind} (different : kindAt source ≠ kind) :
    accept kind finish source = .ok none source [] := by
  cases source with
  | nil => rfl
  | cons t rest => exact if_neg different

theorem expect_eq_ok {kind : Token.Kind} {fault : GrammarFault} {t : Token} (same : t.kind = kind) :
    expect kind fault finish (t :: source) = .ok t source [] := if_pos same

theorem expect_bind {kind : Token.Kind} {fault : GrammarFault} {t : Token} (same : t.kind = kind)
    (f : Token → Parser β) : (expect kind fault >>= f) finish (t :: source) = f t finish source := by
  rw [bind_ok (expect_eq_ok same), Reply.behind_nil]

theorem recover_eq_some {a : α} {rest : List Token} {errors : List GrammarError}
    (run : p finish source = .ok a rest errors) : recover p finish source = .ok (some a) rest errors := by
  rw [recover, run]

theorem recover_eq_none {resume : List Token} {errors : List GrammarError}
    (run : p finish source = .failed resume errors) : recover p finish source = .ok none resume errors := by
  rw [recover, run]

@[simp] theorem recover_rest : (recover p finish source).rest = (p finish source).rest := by
  cases run : p finish source with
  | ok a rest errors => rw [recover_eq_some run]; rfl
  | failed resume errors => rw [recover_eq_none run]; rfl

theorem recover_ne_failed {resume : List Token} {errors : List GrammarError} :
    recover p finish source ≠ .failed resume errors := by
  cases run : p finish source with
  | ok a rest later => simp [recover_eq_some run]
  | failed rest later => simp [recover_eq_none run]

theorem accept_eq_ok_iff {kind : Token.Kind} {found : Option Token} {rest : List Token}
    {errors : List GrammarError} : accept kind finish source = .ok found rest errors ↔ errors = [] ∧
      ((∃ t, found = some t ∧ t.kind = kind ∧ source = t :: rest) ∨
        (found = none ∧ rest = source ∧ (source ≠ [] → kindAt source ≠ kind))) := by
  cases source with
  | nil => simp [accept, eq_comm, and_comm, and_assoc]
  | cons t later =>
    by_cases same : t.kind = kind
    · simp only [accept, same, if_true, Reply.ok.injEq, List.cons.injEq]
      constructor
      · rintro ⟨rfl, rfl, rfl⟩
        exact ⟨rfl, .inl ⟨t, rfl, same, rfl, rfl⟩⟩
      · rintro ⟨rfl, ⟨u, rfl, _, rfl, rfl⟩ | ⟨_, _, other⟩⟩
        · exact ⟨rfl, rfl, rfl⟩
        · exact absurd same (other (List.cons_ne_nil _ _))
    · simp only [accept, same, if_false, Reply.ok.injEq, List.cons.injEq]
      constructor
      · rintro ⟨rfl, rfl, rfl⟩
        exact ⟨rfl, .inr ⟨rfl, rfl, fun _ => same⟩⟩
      · rintro ⟨rfl, ⟨u, rfl, other, rfl, rfl⟩ | ⟨rfl, rfl, _⟩⟩
        · exact absurd other same
        · exact ⟨rfl, rfl, rfl⟩

theorem expect_eq_ok_iff {kind : Token.Kind} {fault : GrammarFault} {t : Token} {rest : List Token}
    {errors : List GrammarError} :
    expect kind fault finish source = .ok t rest errors ↔ errors = [] ∧ t.kind = kind ∧ source = t :: rest := by
  cases source with
  | nil => simp [expect]
  | cons u later =>
    by_cases same : u.kind = kind
    · simp only [expect, same, if_true, Reply.ok.injEq, List.cons.injEq]
      constructor
      · rintro ⟨rfl, rfl, rfl⟩
        exact ⟨rfl, same, rfl, rfl⟩
      · rintro ⟨rfl, _, rfl, rfl⟩
        exact ⟨rfl, rfl, rfl⟩
    · simp only [expect, same, if_false, reduceCtorEq, List.cons.injEq, false_iff]
      rintro ⟨_, other, rfl, _⟩
      exact same other

end Parser

end TinyScript
