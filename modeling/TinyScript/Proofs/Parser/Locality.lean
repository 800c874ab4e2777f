import TinyScript.Proofs.Parser.Modular

namespace TinyScript

variable {α β : Type}

namespace Reply

def errors : Reply α → List GrammarError
  | ok _ _ errors => errors
  | failed _ errors => errors

/-- The same reply when more tokens stand behind the source. -/
def extend (more : List Token) : Reply α → Reply α
  | ok value rest errors => ok value (rest ++ more) errors
  | failed resume errors => failed (resume ++ more) errors

@[simp] theorem rest_extend (more : List Token) (r : Reply α) : (r.extend more).rest = r.rest ++ more := by
  cases r <;> rfl

@[simp] theorem errors_extend (more : List Token) (r : Reply α) : (r.extend more).errors = r.errors := by
  cases r <;> rfl

theorem extend_injective {more : List Token} {r r' : Reply α} (same : r.extend more = r'.extend more) : r = r' := by
  cases r <;> cases r' <;> simp_all [extend]

theorem errors_behind (earlier : List GrammarError) (r : Reply α) :
    (r.behind earlier).errors = earlier ++ r.errors := by
  cases r <;> rfl

theorem behind_extend (earlier : List GrammarError) (more : List Token) (r : Reply α) :
    (r.extend more).behind earlier = (r.behind earlier).extend more := by
  cases r <;> rfl

end Reply

/-- Skipping to a boundary either finds it in the common part of two sources or goes beyond it in both. -/
theorem resync_append (source more more' : List Token) :
    (resync (source ++ more) = resync source ++ more ∧ resync (source ++ more') = resync source ++ more') ∨
      ((resync (source ++ more)).length ≤ more.length ∧ (resync (source ++ more')).length ≤ more'.length) := by
  induction source with
  | nil => exact .inr ⟨(resync_suffix more).length_le, (resync_suffix more').length_le⟩
  | cons t rest ih =>
    simp only [List.cons_append, resync]
    split
    · exact .inl ⟨rfl, rfl⟩
    · split
      · exact .inl ⟨rfl, rfl⟩
      · exact ih

namespace Parser

/-- The replies to two sources with a common part, of which some tokens have been seen before. Either both
replies are the same up to what stands behind, or both go on beyond the common part. -/
inductive Alike (seen source more more' : List Token) : Reply α → Reply α → Prop
  | within (r : Reply α) : r.rest <:+ source → (∀ e ∈ r.errors, e.found ∈ seen ∨ e.found ∈ source) →
      Alike seen source more more' (r.extend more) (r.extend more')
  | beyond {r r' : Reply α} : r.rest.length ≤ more.length → r'.rest.length ≤ more'.length →
      Alike seen source more more' r r'

/-- A parser that knows only what it has read. -/
structure Local (seen : List Token) (p : Parser α) : Prop where
  advances : Advances p
  alike : ∀ finish finish' source more more',
    Alike seen source more more' (p finish (source ++ more)) (p finish' (source ++ more'))

variable {p : Parser α} {f : α → Parser β} {seen : List Token}

theorem Local.bind (first : Local seen p) (later : ∀ a, Local seen (f a)) : Local seen (p >>= f) where
  advances := first.advances.bind fun a => (later a).advances
  alike finish finish' source more more' := by
    have advances := first.advances.bind fun a => (later a).advances
    have beyond {finish source : _} {k : Nat} (le : (p finish source).rest.length ≤ k) :
        ((p >>= f) finish source).rest.length ≤ k := by
      cases run : p finish source with
      | ok a mid errors =>
        rw [run] at le
        rw [bind_ok run, Reply.rest_behind]
        exact Nat.le_trans ((later a).advances finish mid).length_le le
      | failed resume errors =>
        rw [run] at le
        rwa [bind_failed run]
    have alike := first.alike finish finish' source more more'
    generalize run : p finish (source ++ more) = r₁, run' : p finish' (source ++ more') = r₂ at alike
    cases alike with
    | beyond le le' => exact .beyond (beyond (run ▸ le)) (beyond (run' ▸ le'))
    | within r suffix blamed =>
      cases r with
      | failed resume errors =>
        rw [bind_failed run, bind_failed run']
        exact .within (.failed resume errors) suffix blamed
      | ok a mid errors =>
        rw [bind_ok run, bind_ok run']
        have suffix : mid <:+ source := suffix
        have alike := (later a).alike finish finish' mid more more'
        generalize f a finish (mid ++ more) = r₁, f a finish' (mid ++ more') = r₂ at alike
        cases alike with
        | beyond le le' => exact .beyond (by rwa [Reply.rest_behind]) (by rwa [Reply.rest_behind])
        | within r inner more =>
          rw [Reply.behind_extend, Reply.behind_extend]
          refine .within (r.behind errors) (by rw [Reply.rest_behind]; exact inner.trans suffix) fun e mem => ?_
          rw [Reply.errors_behind, List.mem_append] at mem
          rcases mem with mem | mem
          · exact blamed e mem
          · exact (more e mem).imp_right fun found => suffix.subset found

theorem Local.mono {more : List Token} (isLocal : Local seen p) (subset : seen ⊆ more) : Local more p where
  advances := isLocal.advances
  alike finish finish' source left right := by
    have alike := isLocal.alike finish finish' source left right
    generalize p finish (source ++ left) = r₁, p finish' (source ++ right) = r₂ at alike
    cases alike with
    | within r suffix blamed => exact .within r suffix fun e mem => (blamed e mem).imp_left fun found => subset found
    | beyond le le' => exact .beyond le le'

/-- A token of the source need not have been seen before. -/
theorem Alike.of_seen {source inner more more' : List Token} {t : Token} {r r' : Reply α}
    (alike : Alike (t :: seen) inner more more' r r') (suffix : inner <:+ source) (known : t ∈ source) :
    Alike seen source more more' r r' := by
  cases alike with
  | beyond le le' => exact .beyond le le'
  | within r rest blamed =>
    refine .within r (rest.trans suffix) fun e mem => ?_
    rcases blamed e mem with found | found
    · exact (List.mem_cons.1 found).symm.imp_right fun same : e.found = t => same ▸ known
    · exact .inr (suffix.subset found)

/-- Only the replies to sources that begin with the same token have to be compared. -/
theorem Local.of_cons (advances : Advances p) (alike : ∀ finish finish' t source more more',
    Alike seen (t :: source) more more' (p finish (t :: (source ++ more))) (p finish' (t :: (source ++ more')))) :
    Local seen p where
  advances := advances
  alike finish finish' source more more' := by
    cases source with
    | nil => exact .beyond (advances finish more).length_le (advances finish' more').length_le
    | cons t source => exact alike finish finish' t source more more'

theorem Local.pure (a : α) : Local seen (pure a : Parser α) :=
  ⟨.pure a, fun _ _ source _ _ => .within (.ok a source []) List.suffix_rfl (by simp [Reply.errors])⟩

theorem Local.skip : Local seen skip :=
  .of_cons .skip fun _ _ t source _ _ =>
    .within (.ok () source []) (List.suffix_cons t source) (by simp [Reply.errors])

theorem Local.exhausted : Local seen (exhausted : Parser α) :=
  ⟨Consumes.exhausted.advances, fun _ _ _ _ _ => .beyond (Nat.zero_le _) (Nat.zero_le _)⟩

theorem Local.reject {t : Token} (fault : GrammarFault) (known : t ∈ seen) :
    Local seen (reject t fault : Parser α) where
  advances := .reject t fault
  alike finish finish' source more more' := by
    simp only [Parser.reject, resyncBehind]
    have blamed : ∀ e ∈ [(⟨t, fault⟩ : GrammarError)], e.found ∈ seen ∨ e.found ∈ source := by simp [known]
    split
    · exact .within (.failed source _) List.suffix_rfl blamed
    · rcases resync_append source more more' with ⟨same, same'⟩ | ⟨le, le'⟩
      · rw [same, same']
        exact .within (.failed (resync source) _) (resync_suffix source) blamed
      · exact .beyond le le'

theorem Local.report {t : Token} (fault : GrammarFault) (known : t ∈ seen) : Local seen (report t fault) :=
  ⟨.report t fault, fun _ _ source _ _ => .within (.ok () source [⟨t, fault⟩]) List.suffix_rfl
    (by simp [Reply.errors, known])⟩

theorem Local.accept (kind : Token.Kind) : Local seen (accept kind) := by
  refine .of_cons (.accept kind) fun finish finish' t source more more' => ?_
  by_cases same : t.kind = kind
  · rw [accept_eq_some same, accept_eq_some same]
    exact .within (.ok (some t) source []) (List.suffix_cons t source) (by simp [Reply.errors])
  · have different {rest : List Token} : kindAt (t :: rest) ≠ kind := same
    rw [accept_eq_none different, accept_eq_none different]
    exact .within (.ok none (t :: source) []) List.suffix_rfl (by simp [Reply.errors])

theorem Local.expect (kind : Token.Kind) (fault : GrammarFault) : Local seen (expect kind fault) := by
  refine .of_cons (.expect kind fault) fun finish finish' t source more more' => ?_
  by_cases same : t.kind = kind
  · rw [expect_eq_ok same, expect_eq_ok same]
    exact .within (.ok t source []) (List.suffix_cons t source) (by simp [Reply.errors])
  · simp only [Parser.expect, same, if_false]
    rcases resync_append (t :: source) more more' with ⟨same, same'⟩ | ⟨le, le'⟩
    · rw [← List.cons_append, ← List.cons_append, same, same']
      exact .within (.failed (resync (t :: source)) _) (resync_suffix _) (by simp [Reply.errors])
    · exact .beyond le le'

theorem Local.take {fault : GrammarFault} {f : Token → Parser β}
    (later : ∀ t, Local seen (f t) ∨ ∃ fault, f t = Parser.reject t fault) :
    Local seen (Parser.take fault >>= f) := by
  have known (t : Token) : Local (t :: seen) (f t) := by
    rcases later t with isLocal | ⟨fault, rejects⟩
    · exact isLocal.mono (List.subset_cons_self t seen)
    · exact rejects ▸ .reject fault List.mem_cons_self
  refine .of_cons ((Consumes.take fault).advances.bind fun t => (known t).advances) ?_
  intro finish finish' t source more more'
  rw [take_bind, take_bind]
  exact ((known t).alike finish finish' source more more').of_seen (List.suffix_cons t source) List.mem_cons_self

theorem Local.look {f : Token → Parser β} (later : ∀ t, Local (t :: seen) (f t)) :
    Local seen (Parser.look >>= f) := by
  refine .of_cons (Advances.look.bind fun t => (later t).advances) ?_
  intro finish finish' t source more more'
  rw [look_bind, look_bind]
  exact ((later t).alike finish finish' (t :: source) more more').of_seen List.suffix_rfl List.mem_cons_self

/-- The kind of the token behind the next one is known if the next one is always taken. Where that token is the
last common one, nothing common is left behind it. -/
theorem Local.lookBehind {f : Token.Kind → Parser β} (later : ∀ kind, Local seen (f kind))
    (passes : ∀ kind, Passes (f kind)) : Local seen (Parser.lookBehind >>= f) := by
  refine .of_cons (Advances.lookBehind.bind fun kind => (later kind).advances) ?_
  intro finish finish' t source more more'
  rw [lookBehind_bind, lookBehind_bind]
  cases source with
  | nil => exact .beyond (passes _ finish t more).length_le (passes _ finish' t more').length_le
  | cons next source => exact (later next.kind).alike finish finish' (t :: next :: source) more more'

theorem Local.recover (isLocal : Local seen p) : Local seen (Parser.recover p) where
  advances := isLocal.advances.recover
  alike finish finish' source more more' := by
    have alike := isLocal.alike finish finish' source more more'
    generalize run : p finish (source ++ more) = r₁, run' : p finish' (source ++ more') = r₂ at alike
    cases alike with
    | beyond le le' => exact .beyond (by rwa [recover_rest, run]) (by rwa [recover_rest, run'])
    | within r suffix blamed =>
      cases r with
      | ok a rest errors =>
        rw [recover_eq_some run, recover_eq_some run']
        exact .within (.ok (some a) rest errors) suffix blamed
      | failed resume errors =>
        rw [recover_eq_none run, recover_eq_none run']
        exact .within (.ok none resume errors) suffix blamed

theorem modular_local : Modular fun seen _ p => Local seen p where
  pure := .pure
  bind := .bind
  exhausted := .exhausted
  skip := .skip
  accept := .accept
  expect := .expect
  report := .report
  look := .look
  lookBehind := .lookBehind
  take := .take
  recover := .recover

/-- No parser of expressions and statements knows more than it has read, whatever its steps. -/
theorem locality (n : Nat) : Everywhere (fun seen _ p => Local seen p) n := modular_local.everywhere n

/-- What stands behind the place where a parser stops may be exchanged. -/
theorem Local.exchange {source : List Token} {more : List Token} {finish : Location} {r : Reply α}
    (isLocal : Local [] p) (run : p finish (source ++ more) = r.extend more) (some : r.rest ≠ [])
    (finish' : Location) (more' : List Token) :
    p finish' (source ++ more') = r.extend more' ∧ r.rest <:+ source ∧ ∀ e ∈ r.errors, e.found ∈ source := by
  have alike := isLocal.alike finish finish' source more more'
  generalize run' : p finish' (source ++ more') = r' at alike
  rw [run] at alike
  generalize same : r.extend more = r₀ at alike
  cases alike with
  | beyond le _ =>
    have long := List.length_pos_iff.2 some
    rw [← same, Reply.rest_extend, List.length_append] at le
    omega
  | within r₁ suffix blamed =>
    obtain rfl := Reply.extend_injective same
    exact ⟨rfl, suffix, fun e mem => (blamed e mem).resolve_left List.not_mem_nil⟩

/-- What stands behind the place where a parser stops may be added. -/
theorem Local.append {source : List Token} {finish : Location} {r : Reply α} (isLocal : Local [] p)
    (run : p finish source = r) (some : r.rest ≠ []) (finish' : Location) (more : List Token) :
    p finish' (source ++ more) = r.extend more ∧ r.rest <:+ source ∧ ∀ e ∈ r.errors, e.found ∈ source := by
  have run : p finish (source ++ []) = r.extend [] := by
    rw [List.append_nil, run]
    cases r <;> simp [Reply.extend]
  exact isLocal.exchange run some finish' more

end Parser

end TinyScript
