import TinyScript.Proofs.Parser.Graded
import TinyScript.Proofs.Parser.Statements

namespace TinyScript

namespace Reply

variable {α : Type} {tokens : Nat}

/-- A token has been taken for each error. Only the error that a failure ends with may be without one. -/
def Paid (tokens : Nat) : Reply α → Prop
  | ok _ rest errors => errors.length + rest.length ≤ tokens
  | failed resume errors => errors.length + resume.length ≤ tokens + 1

theorem Paid.mono {more : Nat} {r : Reply α} (paid : r.Paid tokens) (le : tokens ≤ more) : r.Paid more := by
  cases r with
  | ok a rest errors => exact Nat.le_trans paid le
  | failed resume errors => exact Nat.le_trans paid (Nat.succ_le_succ le)

/-- Errors from before that have been paid for. -/
theorem Paid.behind {left : Nat} {r : Reply α} {earlier : List GrammarError} (paid : r.Paid left)
    (before : earlier.length + left ≤ tokens) : (r.behind earlier).Paid tokens := by
  cases r with
  | ok a rest errors =>
    simp only [Paid, Reply.behind, List.length_append] at paid ⊢
    omega
  | failed resume errors =>
    simp only [Paid, Reply.behind, List.length_append] at paid ⊢
    omega

end Reply

namespace Parser

variable {α β : Type} {p : Parser α} {f : α → Parser β} {t : Token}

/-- The parser takes a token for each error, unless it fails. -/
def Pays (p : Parser α) : Prop := ∀ finish source, (p finish source).Paid source.length

/-- Before a token the parser pays with what is behind it, so the token is left to pay with. -/
def PaysBehind (t : Token) (p : Parser α) : Prop := ∀ finish source, (p finish (t :: source)).Paid source.length

/-- The parser has to take a token and does not pay with it. Without one it fails once. -/
structure Spares (p : Parser α) : Prop where
  nil : ∀ finish, ∃ errors, p finish [] = .failed [] errors ∧ errors.length ≤ 1
  cons : ∀ t, PaysBehind t p

theorem Spares.pays (spares : Spares p) : Pays p := by
  intro finish source
  cases source with
  | nil =>
    obtain ⟨errors, run, single⟩ := spares.nil finish
    rw [run]
    exact single
  | cons t source => exact (spares.cons t finish source).mono (Nat.le_succ _)

theorem Pays.pure (a : α) : Pays (pure a : Parser α) := fun _ _ => Nat.le_of_eq (Nat.zero_add _)

theorem Pays.look : Pays look := fun _ _ => Nat.le_of_eq (Nat.zero_add _)

theorem Pays.skip : Pays skip := fun _ source => by
  show 0 + source.tail.length ≤ source.length
  simp

theorem Pays.accept (kind : Token.Kind) : Pays (accept kind) := by
  intro finish source
  unfold Parser.accept
  repeat' split
  all_goals simp [Reply.Paid]

theorem Pays.expect (kind : Token.Kind) (fault : GrammarFault) : Pays (expect kind fault) := by
  intro finish source
  cases source with
  | nil => exact Nat.le_refl 1
  | cons t rest =>
    by_cases same : t.kind = kind
    · rw [expect_eq_ok same]
      simp [Reply.Paid]
    · have shorter := (resync_suffix (t :: rest)).length_le
      simp only [Parser.expect, same, if_false, Reply.Paid, List.length_singleton]
      omega

theorem Pays.bind_at {finish : Location} {source : List Token} {tokens : Nat} (first : (p finish source).Paid tokens)
    (later : ∀ a, Pays (f a)) : ((p >>= f) finish source).Paid tokens := by
  cases run : p finish source with
  | ok a rest errors =>
    rw [run] at first
    rw [bind_ok run]
    exact (later a finish rest).behind first
  | failed resume errors =>
    rw [run] at first
    rw [bind_failed run]
    exact first

theorem Pays.bind (first : Pays p) (later : ∀ a, Pays (f a)) : Pays (p >>= f) :=
  fun finish source => bind_at (first finish source) later

theorem Pays.of_look {f : Token → Parser β} (later : ∀ t, Pays (f t)) : Pays (Parser.look >>= f) :=
  .bind .look later

theorem Spares.exhausted : Spares (exhausted : Parser α) where
  nil _ := ⟨[], rfl, Nat.zero_le 1⟩
  cons _ _ _ := Nat.zero_le _

theorem Spares.bind (first : Spares p) (later : ∀ a, Pays (f a)) : Spares (p >>= f) where
  nil finish := by
    obtain ⟨errors, run, single⟩ := first.nil finish
    exact ⟨errors, bind_failed run, single⟩
  cons t finish source := Pays.bind_at (first.cons t finish source) later

theorem Spares.take {fault : GrammarFault} {f : Token → Parser β}
    (later : ∀ t, Pays (f t) ∨ ∃ fault, f t = reject t fault) : Spares (Parser.take fault >>= f) where
  nil _ := ⟨_, rfl, Nat.le_refl 1⟩
  cons t finish source := by
    rw [take_bind]
    rcases later t with pays | ⟨fault, rejects⟩
    · exact pays finish source
    · have shorter := (resyncBehind_suffix t source).length_le
      simp only [rejects, reject, Reply.Paid, List.length_singleton]
      omega

/-- The token that has been found pays for the report. -/
theorem Spares.report (spares : Spares p) {fault : GrammarFault} {b : β} :
    Pays (p >>= fun _ => Parser.report t fault >>= fun _ => Pure.pure b) := by
  intro finish source
  cases source with
  | nil =>
    obtain ⟨errors, run, single⟩ := spares.nil finish
    rw [bind_failed run]
    exact single
  | cons u source =>
    have paid := spares.cons u finish source
    cases run : p finish (u :: source) with
    | ok a rest errors =>
      rw [run] at paid
      rw [bind_ok run]
      have reported : (Reply.ok b rest [⟨t, fault⟩]).Paid (rest.length + 1) := Nat.le_of_eq (Nat.add_comm _ _)
      exact reported.behind (Nat.succ_le_succ paid)
    | failed resume errors =>
      rw [run] at paid
      rw [bind_failed run]
      exact paid.mono (Nat.le_succ _)

theorem Spares.look {f : Token → Parser β} (last : ∀ t, t.kind = .endOfInput → Spares (f t))
    (later : ∀ t, PaysBehind t (f t)) : Spares (Parser.look >>= f) where
  nil finish := by
    rw [look_bind]
    exact (last _ rfl).nil finish
  cons t finish source := by
    rw [look_bind]
    exact later t finish source

theorem PaysBehind.skip {f : Unit → Parser β} (later : Pays (f ())) : PaysBehind t (Parser.skip >>= f) := by
  intro finish source
  rw [skip_bind]
  exact later finish source

theorem PaysBehind.lookBehind {f : Token.Kind → Parser β} (later : ∀ kind, PaysBehind t (f kind)) :
    PaysBehind t (Parser.lookBehind >>= f) := by
  intro finish source
  rw [lookBehind_bind]
  exact later _ finish source

/-- A statement that is left out takes its first token, which pays for the error that ended it. -/
theorem Spares.recover_cons (spares : Spares p) (finish : Location) (t : Token) (source : List Token) :
    (recover p finish (t :: source)).Paid (t :: source).length := by
  have paid := spares.cons t finish source
  cases run : p finish (t :: source) with
  | ok a rest errors =>
    rw [run] at paid
    rw [recover_eq_some run]
    exact Nat.le_succ_of_le paid
  | failed resume errors =>
    rw [run] at paid
    rw [recover_eq_none run]
    exact paid

theorem Pays.loop (stops : Token.Kind → Prop) [DecidablePred stops] {last : Parser β} {f : Option α → Parser β}
    (ends : stops .endOfInput) (atEnd : Pays last) (spares : Spares p) (later : ∀ a, Pays (f a)) :
    Pays (Parser.look >>= fun t => if stops t.kind then last else recover p >>= f) := by
  intro finish source
  rw [look_bind]
  by_cases stop : stops (source.head?.getD (.finish finish)).kind
  · rw [if_pos stop]
    exact atEnd finish source
  · rw [if_neg stop]
    cases source with
    | nil => exact absurd ends stop
    | cons t source => exact bind_at (spares.recover_cons finish t source) later

theorem graded_pays : Graded (fun _ _ p => Pays p) (fun t _ _ p => PaysBehind t p) (fun _ _ p => Spares p) where
  weaken := Spares.pays
  begin spares := spares.cons _
  pure := .pure
  bind := .bind
  needs_bind := .bind
  exhausted := .exhausted
  skip := .skip
  accept := .accept
  expect := .expect
  take := .take
  report _ spares := spares.report
  look := .of_look
  needs_look := .look
  at_skip := .skip
  at_function _ literal statement := .lookBehind fun kind => by
    split
    · exact .skip (literal.bind fun _ => .pure _)
    · exact statement.cons _
  loop stops _ _ _ _ ends atEnd spares later _ := .loop stops ends (atEnd []) (spares []) (later [])

theorem Pays.statements (n : Nat) : Pays (statements n) := by
  induction n with
  | zero => exact Spares.exhausted.pays
  | succ n ih =>
    have spares : Spares (statement n) := @Throughout.statement _ _ _ (graded_pays.throughout n) []
    exact loop (fun kind => kind = .endOfInput) rfl (.pure _) spares fun _ => ih.bind fun _ => .pure _

/-- A round of a loop of statements: it begins at some tokens and the loop goes on at others, whatever the round has
come to. -/
def Round (loop : Nat → Parser (List Stmt)) (n : Nat) (finish : Location) (source next : List Token) : Prop :=
  ∃ (first : Option Stmt) (errors : List GrammarError), recover (statement n) finish source = .ok first next errors ∧
    loop (n + 1) finish source = ((loop n finish next).map (first.toList ++ ·)).behind errors

variable {finish : Location} {source : List Token}

/-- A round takes a token at least. -/
theorem Round.of_eq {loop : Nat → Parser (List Stmt)} {n : Nat} (going : kindAt source ≠ .endOfInput)
    (same : loop (n + 1) finish source = (do
      let first ← recover (statement n)
      let more ← loop n
      pure (first.toList ++ more) : Parser _) finish source) :
    ∃ next, Round loop n finish source next ∧ next <:+ source.tail ∧ next.length < source.length := by
  cases source with
  | nil => exact absurd rfl going
  | cons t source =>
    cases run : recover (statement n) finish (t :: source) with
    | failed resume errors => exact absurd run recover_ne_failed
    | ok first next errors =>
      have suffix : next <:+ source := by
        have passes := (forward n).statement.cons finish t source
        rwa [← recover_rest, run] at passes
      refine ⟨next, ⟨first, errors, run, ?_⟩, suffix, Nat.lt_succ_of_le suffix.length_le⟩
      rw [same, bind_ok run]
      congr 1
      cases inner : loop n finish next with
      | ok more last later => simp [bind_ok inner, Reply.behind, Reply.map]
      | failed resume later => exact bind_failed inner

theorem Round.statements (n : Nat) (going : kindAt source ≠ .endOfInput) :
    ∃ next, Round Parser.statements n finish source next ∧ next <:+ source.tail ∧ next.length < source.length := by
  refine Round.of_eq going ?_
  rw [Parser.statements, look_bind, look_kind]
  simp only [going, if_false]

theorem Round.blockBody (n : Nat) (noBrace : kindAt source ≠ .rightBrace) (going : kindAt source ≠ .endOfInput) :
    ∃ next, Round Parser.blockBody n finish source next ∧ next <:+ source.tail ∧ next.length < source.length := by
  refine Round.of_eq going ?_
  rw [Parser.blockBody, look_bind, look_kind]
  simp only [noBrace, going, or_self, if_false]

/-- The loop of a program only stops at the end. -/
theorem statements_stop (n : Nat) : ∀ {finish source body rest errors},
    Parser.statements n finish source = .ok body rest errors → kindAt rest = .endOfInput := by
  induction n with
  | zero => exact fun run => by cases run
  | succ n ih =>
    intro finish source body rest errors run
    rw [Parser.statements, look_bind, look_kind] at run
    by_cases last : kindAt source = .endOfInput
    · rw [if_pos last] at run
      cases run
      exact last
    · rw [if_neg last] at run
      obtain ⟨first, mid, _, _, -, later, -⟩ := bind_eq_ok_iff.1 run
      obtain ⟨more, _, _, _, loop, done, -⟩ := bind_eq_ok_iff.1 later
      cases done
      exact ih loop

end Parser

open TinyScript.Parser

/-- Reading any tokens comes to an end, from a number of steps on that depends on how many tokens there are. No parser
goes back, each round of the program and of each block takes a token unless it stands at the end, and there are no
more errors than tokens. -/
theorem Program.reading_ends (tokens : List Token) (finish : Location) (only : ∀ t ∈ tokens, t.kind ≠ .endOfInput) :
    (∃ body errors, (∀ n, budget tokens ≤ n → Parser.statements n finish tokens = .ok body [] errors) ∧
      Program.ofTokens tokens finish = (⟨((tokens.head?.map (·.location)).getD finish), body⟩,
        errors.map (·.diagnostic)) ∧ errors.length ≤ tokens.length) ∧
    (∀ n, Forward n) ∧
    (∀ n place source, kindAt source ≠ .endOfInput →
      ∃ next, Round Parser.statements n place source next ∧ next <:+ source.tail ∧ next.length < source.length) ∧
    (∀ n place source, kindAt source ≠ .rightBrace → kindAt source ≠ .endOfInput →
      ∃ next, Round Parser.blockBody n place source next ∧ next <:+ source.tail ∧ next.length < source.length) := by
  refine ⟨?_, forward, fun n _ _ => Round.statements n, fun n _ _ => Round.blockBody n⟩
  obtain ⟨body, rest, errors, run⟩ := statements_ok _ (enough_budget tokens)
  have done : rest = [] := by
    have suffix : rest <:+ tokens := by
      have advances := Advances.statements (budget tokens) finish tokens
      rwa [run] at advances
    cases rest with
    | nil => rfl
    | cons t rest => exact absurd (statements_stop _ run) (only t (suffix.subset List.mem_cons_self))
  subst done
  refine ⟨body, errors, fun n enough => ?_, ?_, ?_⟩
  · have steps := (enough_budget tokens).left
    exact (statements_agree n ⟨Nat.le_trans steps enough, steps⟩).same.trans run
  · rw [Program.ofTokens, run]
  · have paid := Pays.statements (budget tokens) finish tokens
    rw [run] at paid
    exact paid

/-- In `\x7b \x7b )` every token has its error: the parenthesis, and both blocks, which are never closed. -/
theorem Program.reading_ends_unclosed :
    let tokens : List Token :=
      [⟨.leftBrace, "\x7b", ⟨1, 1⟩⟩, ⟨.leftBrace, "\x7b", ⟨1, 3⟩⟩, ⟨.rightParen, ")", ⟨1, 5⟩⟩]
    (∀ t ∈ tokens, t.kind ≠ .endOfInput) ∧ ∀ n, budget tokens ≤ n →
      ∃ body errors, Parser.statements n ⟨1, 6⟩ tokens = .ok body [] errors ∧ errors.length = tokens.length := by
  intro tokens
  have only : ∀ t ∈ tokens, t.kind ≠ .endOfInput := by decide
  obtain ⟨⟨body, errors, run, whole, -⟩, -⟩ := Program.reading_ends tokens ⟨1, 6⟩ only
  have three : (Program.ofTokens tokens ⟨1, 6⟩).2.length = 3 := rfl
  rw [whole, List.length_map] at three
  exact ⟨only, fun n enough => ⟨body, errors, run n enough, three⟩⟩

end TinyScript
