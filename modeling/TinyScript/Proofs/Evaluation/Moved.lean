import TinyScript.Evaluation.Operators
import TinyScript.Proofs.Store.Moved

namespace TinyScript

variable {α β γ δ : Type}

/-- Outcomes whose results, errors and states are related. -/
inductive Outcome.Like (R : State → State → Prop) (E : RuntimeError → RuntimeError → Prop) (G : α → β → Prop) :
    Outcome α → Outcome β → Prop
  | done {a : α} {b : β} {st st' : State} : G a b → R st st' → Like R E G (.done a st) (.done b st')
  | failed {e e' : RuntimeError} {st st' : State} : E e e' → R st st' → Like R E G (.failed e st) (.failed e' st')
  | unfinished : Like R E G .unfinished .unfinished

/-- From related states the runs end alike. -/
def Run.Like (R : State → State → Prop) (E : RuntimeError → RuntimeError → Prop) (G : α → β → Prop) (x : Run α)
    (y : Run β) : Prop :=
  ∀ st st', R st st' → (x st).Like R E G (y st')

variable {R : State → State → Prop} {E : RuntimeError → RuntimeError → Prop} {G : α → β → Prop} {H : γ → δ → Prop}
  {p : Move} {line line' : Nat}

namespace Run.Like

theorem bind {x : Run α} {y : Run β} {f : α → Run γ} {h : β → Run δ} (first : x.Like R E G y)
    (later : ∀ a b, G a b → (f a).Like R E H (h b)) : (x >>= f).Like R E H (y >>= h) := by
  intro st st' related
  have both := first st st' related
  rw [Run.bind_apply, Run.bind_apply]
  revert both
  generalize x st = o
  generalize y st' = o'
  rintro (⟨results, related⟩ | ⟨errors, related⟩ | _)
  · exact later _ _ results _ _ related
  · exact .failed errors related
  · exact .unfinished

theorem pure {a : α} {b : β} (results : G a b) : Run.Like R E G (Pure.pure a : Run α) (Pure.pure b) :=
  fun _ _ related => .done results related

theorem fail {f f' : Fault} (errors : E ⟨line, f⟩ ⟨line', f'⟩) :
    Run.Like R E G (Run.fail line f : Run α) (Run.fail line' f' : Run β) :=
  fun _ _ related => .failed errors related

theorem reading {f : Store → α} {h : Store → β} (results : ∀ st st', R st st' → G (f st.store) (h st'.store)) :
    Run.Like R E G (Run.reading f) (Run.reading h) :=
  fun _ _ related => .done (results _ _ related) related

end Run.Like

namespace Move

@[simp] theorem position?_value (v : Value) : (p.value v).position? = v.position? := by cases v <;> rfl

theorem settles_value (op : LogicalOperator) (v : Value) : op.settles (p.value v) = op.settles v := by
  cases op <;> rw [LogicalOperator.settles, LogicalOperator.settles, truthy_value]

theorem value_eq_number_iff {v : Value} {x : Float} : p.value v = .number x ↔ v = .number x := by
  cases v <;> simp [value]

theorem value_eq_string_iff {v : Value} {t : Packed} : p.value v = .string t ↔ v = .string t := by
  cases v <;> simp [value]

/-- The same value in its other place. -/
def Same (p : Move) (v w : Value) : Prop := w = p.value v

variable (reads : ∀ st st', R st st' → p.Reads st.store st'.store)
  (errors : ∀ fault, (∀ name, fault ≠ .undefinedVariable name) → E ⟨line, fault⟩ ⟨line', fault⟩)

include reads errors

theorem binary (op : BinaryOperator) (v w : Value) :
    (op.apply line v w).Like R E p.Same (op.apply line' (p.value v) (p.value w)) := by
  unfold BinaryOperator.apply
  split
  · exact .pure (congrArg Value.boolean (equals_value _ _))
  · exact .pure (congrArg (fun same => Value.boolean !same) (equals_value _ _))
  · cases op <;> exact .pure rfl
  · exact (Run.Like.reading (G := fun a b => b = a) fun _ _ related => (reads _ _ related).packed _).bind
      fun a b same => .pure (by rw [same]; rfl)
  · next notString =>
    have packed : Run.Like R E (fun a b => b = a) (.reading (·.packed v)) (.reading (·.packed (p.value v))) :=
      .reading fun _ _ related => (reads _ _ related).packed v
    cases v with
    | string t => exact (notString t rfl).elim
    | _ => exact packed.bind fun a b same => .pure (by rw [same]; rfl)
  · next notEqual notNotEqual notLeft notRight notNumbers =>
    split
    · exact (notEqual rfl).elim
    · exact (notNotEqual rfl).elim
    · next left right => exact (notNumbers _ _ (value_eq_number_iff.1 left) (value_eq_number_iff.1 right)).elim
    · next left => exact (notLeft _ rfl (value_eq_string_iff.1 left)).elim
    · next right _ => exact (notRight _ rfl (value_eq_string_iff.1 right)).elim
    · rw [kind_value, kind_value]
      exact .fail (errors _ fun _ => nofun)

omit reads in
theorem unary (op : UnaryOperator) (v : Value) :
    (op.apply line v).Like R E p.Same (op.apply line' (p.value v)) := by
  cases op with
  | not => exact .pure (by rw [truthy_value]; rfl)
  | negate =>
    cases v with
    | number => exact .pure rfl
    | _ => exact .fail (errors _ fun _ => nofun)

theorem index (v i : Value) : (v.at line i).Like R E p.Same ((p.value v).at line' (p.value i)) := by
  cases v with
  | array id =>
    show Run.Like R E p.Same (.reading fun s => (i.position?.bind fun k => (s.elements id)[k]?).getD .null)
      (.reading fun s => ((p.value i).position?.bind fun k => (s.elements (p.array id))[k]?).getD .null)
    refine .reading fun st st' related => ?_
    rw [position?_value, (reads _ _ related).elements]
    cases i.position? with
    | none => rfl
    | some k =>
      show ((st.store.elements id).map p.value)[k]?.getD .null = p.value ((st.store.elements id)[k]?.getD .null)
      rw [Array.getElem?_map]
      cases (st.store.elements id)[k]? <;> rfl
  | string t =>
    show Run.Like R E p.Same (Pure.pure ((i.position?.bind t.get?).elim .null fun b => .string (.singleton b)))
      (Pure.pure (((p.value i).position?.bind t.get?).elim .null fun b => .string (.singleton b)))
    rw [position?_value]
    refine .pure ?_
    generalize i.position?.bind t.get? = found
    cases found <;> rfl
  | object id =>
    cases i with
    | string key =>
      show Run.Like R E p.Same (.reading fun s => ((s.entries id).get? key.text).getD .null)
        (.reading fun s => ((s.entries (p.object id)).get? key.text).getD .null)
      refine .reading fun st st' related => ?_
      rw [(reads _ _ related).entries, Table.get?_map]
      cases (st.store.entries id).get? key.text <;> rfl
    | _ => exact .fail (errors _ fun _ => nofun)
  | _ => exact .fail (errors _ fun _ => nofun)

end Move

end TinyScript
