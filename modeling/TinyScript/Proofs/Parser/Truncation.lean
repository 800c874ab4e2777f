import TinyScript.Proofs.Grammar.Program
import TinyScript.Proofs.Parser.Graded
import TinyScript.Proofs.Parser.Locality

namespace TinyScript

open Grammar

namespace Reply

variable {α : Type}

/-- Reading has come to the end of the source, and all errors are found there. -/
structure AtEnd (r : Reply α) : Prop where
  rest : r.rest = []
  blamed : ∀ e ∈ r.errors, e.found.kind = .endOfInput

theorem AtEnd.behind {r : Reply α} {earlier : List GrammarError} (atEnd : r.AtEnd)
    (before : ∀ e ∈ earlier, e.found.kind = .endOfInput) : (r.behind earlier).AtEnd where
  rest := by rw [rest_behind, atEnd.rest]
  blamed := by
    intro e mem
    rw [errors_behind, List.mem_append] at mem
    exact mem.elim (before e) (atEnd.blamed e)

end Reply

namespace Parser

variable {α β : Type} {p : Parser α} {f : α → Parser β} {t : Token}

/-- What the parser makes, before a token, of a source that ends earlier than one which it reads without an error. -/
structure CutAt (t : Token) (p : Parser α) : Prop where
  cut : ∀ {finish source more a rest}, p finish (t :: (source ++ more)) = .ok a rest [] → ∀ finish',
    (∃ mid, rest = mid ++ more ∧ p finish' (t :: source) = .ok a mid []) ∨ (p finish' (t :: source)).AtEnd
  /-- Without an error a parser only fails when its budget is used up. -/
  spent : ∀ {finish source resume}, p finish (t :: source) = .failed resume [] → resume = []

/-- Where the source ends, the parser has no errors but there. -/
structure Cut (p : Parser α) : Prop where
  nil : ∀ finish, (p finish []).AtEnd
  cons : ∀ t, CutAt t p

/-- The parser fails where the source ends. -/
structure CutShort (p : Parser α) : Prop where
  nil : ∀ finish, ∃ errors, p finish [] = .failed [] errors ∧ ∀ e ∈ errors, e.found.kind = .endOfInput
  cons : ∀ t, CutAt t p

theorem CutShort.cut (short : CutShort p) : Cut p where
  nil finish := by
    obtain ⟨errors, run, blamed⟩ := short.nil finish
    rw [run]
    exact ⟨rfl, blamed⟩
  cons := short.cons

/-- Whether or not there is a token behind a place where the source has been cut. -/
theorem Cut.cut (cuts : Cut p) {finish : Location} {source more rest : List Token} {a : α}
    (run : p finish (source ++ more) = .ok a rest []) (finish' : Location) :
    (∃ mid, rest = mid ++ more ∧ p finish' source = .ok a mid []) ∨ (p finish' source).AtEnd := by
  cases source with
  | nil => exact .inr (cuts.nil finish')
  | cons t source => exact (cuts.cons t).cut run finish'

theorem Cut.spent (cuts : Cut p) {finish : Location} {source resume : List Token}
    (run : p finish source = .failed resume []) : resume = [] := by
  cases source with
  | nil =>
    have rest := (cuts.nil finish).rest
    rwa [run] at rest
  | cons t source => exact (cuts.cons t).spent run

theorem Cut.at_end {finish : Location} {source : List Token} (atEnd : (p finish source).AtEnd)
    (later : ∀ a, Cut (f a)) : ((p >>= f) finish source).AtEnd := by
  cases run : p finish source with
  | ok a rest errors =>
    rw [run] at atEnd
    obtain rfl : rest = [] := atEnd.rest
    rw [bind_ok run]
    exact ((later a).nil finish).behind atEnd.blamed
  | failed resume errors =>
    rw [run] at atEnd
    rw [bind_failed run]
    exact ⟨atEnd.rest, atEnd.blamed⟩

theorem CutAt.bind (first : CutAt t p) (later : ∀ a, Cut (f a)) : CutAt t (p >>= f) where
  cut run finish' := by
    obtain ⟨a, whole, errors, errors', run, run', none⟩ := bind_eq_ok_iff.1 run
    obtain ⟨rfl, rfl⟩ := List.append_eq_nil_iff.1 none.symm
    rcases first.cut run finish' with ⟨mid, rfl, same⟩ | atEnd
    · rw [bind_ok same, Reply.behind_nil]
      exact (later a).cut run' finish'
    · exact .inr (Cut.at_end atEnd later)
  spent run := by
    rcases bind_eq_failed_iff.1 run with run | ⟨a, mid, errors, errors', run, run', none⟩
    · exact first.spent run
    · obtain ⟨rfl, rfl⟩ := List.append_eq_nil_iff.1 none.symm
      exact (later a).spent run'

theorem Cut.bind (first : Cut p) (later : ∀ a, Cut (f a)) : Cut (p >>= f) where
  nil finish := Cut.at_end (first.nil finish) later
  cons t := (first.cons t).bind later

theorem CutShort.bind (first : CutShort p) (later : ∀ a, Cut (f a)) : CutShort (p >>= f) where
  nil finish := by
    obtain ⟨errors, run, blamed⟩ := first.nil finish
    exact ⟨errors, bind_failed run, blamed⟩
  cons t := (first.cons t).bind later

theorem CutShort.exhausted : CutShort (exhausted : Parser α) where
  nil _ := ⟨[], rfl, by simp⟩
  cons _ := by
    refine ⟨fun run => ?_, fun run => ?_⟩ <;> cases run
    rfl

/-- A step that takes the token before it and nothing else. -/
theorem CutAt.of_next {a : α} (next : ∀ finish source, p finish (t :: source) = .ok a source []) : CutAt t p where
  cut run _ := by
    rw [next] at run
    cases run
    exact .inl ⟨_, rfl, next _ _⟩
  spent run := by
    rw [next] at run
    cases run

/-- A step that stays. -/
theorem CutAt.of_stay {a : α} (stay : ∀ finish source, p finish (t :: source) = .ok a (t :: source) []) :
    CutAt t p where
  cut run _ := by
    rw [stay] at run
    cases run
    exact .inl ⟨_, rfl, stay _ _⟩
  spent run := by
    rw [stay] at run
    cases run

/-- A step that is an error. -/
theorem CutAt.of_fails (fails : ∀ finish source, ∃ rest e errors, p finish (t :: source) = .failed rest (e :: errors)) :
    CutAt t p where
  cut {finish source more _ _} run := by
    obtain ⟨rest, e, errors, failed⟩ := fails finish (source ++ more)
    rw [failed] at run
    cases run
  spent {finish source _} run := by
    obtain ⟨rest, e, errors, failed⟩ := fails finish source
    rw [failed] at run
    cases run

theorem Cut.pure (a : α) : Cut (pure a : Parser α) where
  nil _ := ⟨rfl, by simp [Reply.errors]⟩
  cons _ := .of_stay fun _ _ => rfl

theorem Cut.skip : Cut skip where
  nil _ := ⟨rfl, by simp [Parser.skip, Reply.errors]⟩
  cons _ := .of_next fun _ _ => rfl

theorem Cut.accept (kind : Token.Kind) : Cut (accept kind) where
  nil _ := ⟨rfl, by simp [Parser.accept, Reply.errors]⟩
  cons t := by
    by_cases same : t.kind = kind
    · exact .of_next fun _ _ => accept_eq_some same
    · exact .of_stay fun _ _ => if_neg same

theorem Cut.expect (kind : Token.Kind) (fault : GrammarFault) : Cut (expect kind fault) where
  nil _ := ⟨rfl, by simp [Parser.expect, Reply.errors, Token.finish]⟩
  cons t := by
    by_cases same : t.kind = kind
    · exact .of_next fun _ _ => expect_eq_ok same
    · exact .of_fails fun _ _ => ⟨_, _, _, if_neg same⟩

/-- Behind a step that only takes the token before it. -/
theorem CutAt.of_bind {q : Parser α} (next : ∀ finish source, q finish (t :: source) = p finish source)
    (cuts : Cut p) : CutAt t q where
  cut run finish' := by
    rw [next] at run ⊢
    exact cuts.cut run finish'
  spent run := by
    rw [next] at run
    exact cuts.spent run

theorem CutShort.take {fault : GrammarFault} {f : Token → Parser β}
    (later : ∀ t, Cut (f t) ∨ ∃ fault, f t = reject t fault) : CutShort (Parser.take fault >>= f) where
  nil _ := ⟨_, rfl, by simp [Token.finish]⟩
  cons t := by
    rcases later t with cuts | ⟨fault, rejects⟩
    · exact .of_bind (fun _ _ => take_bind _ _ _) cuts
    · refine .of_fails fun finish source => ⟨resyncBehind t source, ⟨t, fault⟩, [], ?_⟩
      rw [take_bind, rejects]
      rfl

/-- What is reported is an error already in the longer source. -/
theorem CutShort.report (short : CutShort p) {fault : GrammarFault} {b : β} :
    Cut (p >>= fun _ => Parser.report t fault >>= fun _ => Pure.pure b) where
  nil finish := by
    obtain ⟨errors, run, blamed⟩ := short.nil finish
    rw [bind_failed run]
    exact ⟨rfl, blamed⟩
  cons u := {
    cut := fun run => by
      obtain ⟨_, _, _, _, -, reported, none⟩ := bind_eq_ok_iff.1 run
      cases reported
      exact absurd none (by simp)
    spent := fun run => by
      rcases bind_eq_failed_iff.1 run with run | ⟨_, _, _, _, -, reported, -⟩
      · exact (short.cons u).spent run
      · cases reported }

theorem CutAt.look {f : Token → Parser β} (later : CutAt t (f t)) : CutAt t (Parser.look >>= f) where
  cut run finish' := by
    rw [look_bind] at run ⊢
    exact later.cut run finish'
  spent run := by
    rw [look_bind] at run
    exact later.spent run

theorem Cut.look {f : Token → Parser β} (later : ∀ t, Cut (f t)) : Cut (Parser.look >>= f) where
  nil finish := by
    rw [look_bind]
    exact (later _).nil finish
  cons t := .look ((later t).cons t)

theorem CutShort.look {f : Token → Parser β} (last : ∀ t, t.kind = .endOfInput → CutShort (f t))
    (later : ∀ t, CutAt t (f t)) : CutShort (Parser.look >>= f) where
  nil finish := by
    rw [look_bind]
    exact (last _ rfl).nil finish
  cons t := .look (later t)

theorem functionLiteral_nil (n : Nat) (location finish : Location) :
    ∃ errors, functionLiteral n location finish [] = .failed [] errors ∧ ∀ e ∈ errors, e.found.kind = .endOfInput := by
  cases n with
  | zero => exact ⟨[], rfl, by simp⟩
  | succ n => exact ⟨_, rfl, by simp [Token.finish]⟩

theorem expression_functionWord (n level : Nat) (finish : Location) (word : t.kind = .functionWord) :
    ∃ errors, expression n level finish [t] = .failed [] errors ∧ ∀ e ∈ errors, e.found.kind = .endOfInput := by
  rcases n with _ | _ | n
  · exact ⟨[], rfl, by simp⟩
  · exact ⟨[], rfl, by simp⟩
  · obtain ⟨errors, run, blamed⟩ := functionLiteral_nil n t.location finish
    refine ⟨errors, bind_failed ?_, blamed⟩
    rw [operand, take_bind]
    simp only [word]
    exact bind_failed run

/-- Where the word of a function is the last token, it is taken for the beginning of an expression. -/
theorem expressionStatement_functionWord (n : Nat) (location finish : Location) (word : t.kind = .functionWord) :
    (expressionStatement n location finish [t]).AtEnd := by
  cases n with
  | zero => exact ⟨rfl, by simp [expressionStatement, exhausted, Reply.errors]⟩
  | succ n =>
    obtain ⟨errors, run, blamed⟩ := expression_functionWord n 0 finish word
    rw [expressionStatement, bind_failed run]
    exact ⟨rfl, blamed⟩

theorem lookBehind_cons {finish : Location} {source : List Token} {u : Token} (f : Token.Kind → Parser β) :
    (lookBehind >>= f) finish (t :: u :: source) = f u.kind finish (t :: u :: source) := lookBehind_bind f

theorem CutAt.function {n : Nat} (word : t.kind = .functionWord) (literal : Cut (functionLiteral n t.location))
    (statement : CutShort (expressionStatement n t.location)) :
    CutAt t (do
      if (← lookBehind) = .identifier then do
        Parser.skip
        return .function (← functionLiteral n t.location)
      else expressionStatement n t.location) := by
  have declared : CutAt t (do
      Parser.skip
      return Stmt.function (← functionLiteral n t.location)) :=
    .of_bind (fun _ _ => skip_bind _) (literal.bind fun _ => .pure _)
  refine ⟨fun {finish source more a rest} run finish' => ?_, fun {finish source resume} run => ?_⟩
  · cases source with
    | nil =>
      rw [lookBehind_bind]
      exact .inr (expressionStatement_functionWord n t.location finish' word)
    | cons u source =>
      rw [List.cons_append, lookBehind_cons] at run
      rw [lookBehind_cons]
      by_cases name : u.kind = .identifier
      · rw [if_pos name] at run ⊢
        exact declared.cut run finish'
      · rw [if_neg name] at run ⊢
        exact (statement.cons t).cut run finish'
  · rw [lookBehind_bind] at run
    split at run
    · exact declared.spent run
    · exact (statement.cons t).spent run

theorem recover_atEnd {finish : Location} {source : List Token} (atEnd : (p finish source).AtEnd) :
    (recover p finish source).AtEnd := by
  obtain ⟨rest, blamed⟩ := atEnd
  cases run : p finish source with
  | ok a mid errors =>
    rw [run] at rest blamed
    rw [recover_eq_some run]
    exact ⟨rest, blamed⟩
  | failed resume errors =>
    rw [run] at rest blamed
    rw [recover_eq_none run]
    exact ⟨rest, blamed⟩

/-- A round that leaves nothing out is read as the parser reads it. One that fails without an error would have used
up all tokens. -/
theorem CutAt.round {f : Option α → Parser β} (short : CutAt t p) (later : ∀ a, Cut (f a))
    (goesOn : ∀ finish, ∃ errors, f none finish [] = .failed [] errors) : CutAt t (recover p >>= f) where
  cut {finish source more _ _} run finish' := by
    obtain ⟨found, whole, errors, errors', run, run', none⟩ := bind_eq_ok_iff.1 run
    obtain ⟨rfl, rfl⟩ := List.append_eq_nil_iff.1 none.symm
    cases attempt : p finish (t :: (source ++ more)) with
    | ok a rest errors =>
      rw [recover_eq_some attempt] at run
      cases run
      rcases short.cut attempt finish' with ⟨mid, rfl, same⟩ | atEnd
      · rw [bind_ok (recover_eq_some same), Reply.behind_nil]
        exact (later _).cut run' finish'
      · exact .inr (Cut.at_end (recover_atEnd atEnd) later)
    | failed resume errors =>
      rw [recover_eq_none attempt] at run
      cases run
      obtain rfl := short.spent attempt
      obtain ⟨errors, failed⟩ := goesOn finish
      cases failed.symm.trans run'
  spent run := by
    rcases bind_eq_failed_iff.1 run with run | ⟨a, mid, errors, errors', run, run', none⟩
    · exact absurd run recover_ne_failed
    · obtain ⟨rfl, rfl⟩ := List.append_eq_nil_iff.1 none.symm
      exact (later a).spent run'

theorem Cut.loop (stops : Token.Kind → Prop) [DecidablePred stops] {last : Parser β} {f : Option α → Parser β}
    (ends : stops .endOfInput) (atEnd : Cut last) (short : CutShort p) (later : ∀ a, Cut (f a))
    (goesOn : ∀ finish, ∃ errors, f none finish [] = .failed [] errors) :
    Cut (Parser.look >>= fun t => if stops t.kind then last else recover p >>= f) where
  nil finish := by
    have stop : stops (Token.finish finish).kind := ends
    rw [look_bind, List.head?_nil, Option.getD_none, if_pos stop]
    exact atEnd.nil finish
  cons t := .look (by
    split
    · exact atEnd.cons t
    · exact (short.cons t).round later goesOn)

theorem graded_cut : Graded (fun _ _ p => Cut p) (fun t _ _ p => CutAt t p) (fun _ _ p => CutShort p) where
  weaken := CutShort.cut
  begin short := short.cons _
  pure := .pure
  bind := .bind
  needs_bind := .bind
  exhausted := .exhausted
  skip := .skip
  accept := .accept
  expect := .expect
  take := .take
  report _ short := short.report
  look := .look
  needs_look last later := .look last later
  at_skip later := .of_bind (fun _ _ => skip_bind _) later
  at_function := .function
  loop stops _ _ _ _ ends atEnd short later goesOn := .loop stops ends (atEnd []) (short []) (later []) goesOn

end Parser

namespace Grammar

variable {xs ys tokens : List Token} {s : Stmt} {next : Token.Kind} {parts : List (List Token × Stmt)}

/-- Nothing has to stand behind a statement. -/
def MayBeLast : (nonterminal : Nonterminal) → List Token → nonterminal.Tree → Prop
  | .statement _, xs, s => Derives (.statement .endOfInput) xs s
  | _, _, _ => True

theorem Derives.mayBeLast {nonterminal : Nonterminal} {tree : nonterminal.Tree} (h : Derives nonterminal xs tree) :
    MayBeLast nonterminal xs tree := by
  have last {next : Token.Kind} {ys : List Token} (ends : End next ys) : End .endOfInput ys := by
    cases ends with
    | semicolon kind => exact .semicolon kind
    | omitted _ => exact .omitted (.inr rfl)
  induction h with
  | var declaration ends _ => exact .var declaration (last ends)
  | functionDeclaration literal name _ => exact .functionDeclaration literal name
  | ifOnly word opens condition closes _ _ _ ih => exact .ifOnly word opens condition closes ih (by decide)
  | ifElse word opens condition closes consequence other _ _ _ ih =>
    exact .ifElse word opens condition closes consequence other ih
  | whileLoop word opens condition closes _ _ ih => exact .whileLoop word opens condition closes ih
  | forLoop word opens first condition step _ _ _ _ ih => exact .forLoop word opens first condition step ih
  | returnNull word ends => exact .returnNull word (last ends)
  | returnValue word value ends _ => exact .returnValue word value (last ends)
  | block opens body closes _ => exact .block opens body closes
  | empty semicolon => exact .empty semicolon
  | expression value noBlock noName ends _ => exact .expression value noBlock noName (last ends)
  | _ => trivial

theorem Derives.last (h : Derives (.statement next) xs s) : Derives (.statement .endOfInput) xs s := h.mayBeLast

/-- The tokens of a source, divided among its statements. -/
inductive Divides : List Token → List (List Token × Stmt) → Prop
  | done : Divides [] []
  | andThen {xs ys : List Token} {s : Stmt} {parts : List (List Token × Stmt)} :
      Derives (.statement (firstKind ys .endOfInput)) xs s → Divides ys parts → Divides (xs ++ ys) ((xs, s) :: parts)

/-- Tokens that are statements up to the end can be divided among them. -/
def Divisible : (nonterminal : Nonterminal) → List Token → nonterminal.Tree → Prop
  | .statements next, tokens, body => next = .endOfInput → ∃ parts, Divides tokens parts ∧ parts.map (·.2) = body
  | _, _, _ => True

theorem Derives.divisible {nonterminal : Nonterminal} {tree : nonterminal.Tree} (h : Derives nonterminal xs tree) :
    Divisible nonterminal xs tree := by
  induction h with
  | done => exact fun _ => ⟨[], .done, rfl⟩
  | andThen first _ _ ih =>
    rintro rfl
    obtain ⟨parts, divides, rfl⟩ := ih rfl
    exact ⟨_, .andThen first divides, rfl⟩
  | _ => trivial

/-- A statement is read before what is left of the tokens behind it. -/
theorem Derives.settles_take (h : Derives (.statement (firstKind ys .endOfInput)) xs s) (finish : Location) (k : Nat) :
    Parser.Settles Parser.statement finish (xs ++ ys.take k) (.ok s (ys.take k) []) := by
  cases left : ys.take k with
  | nil => exact h.last.reads finish [] rfl
  | cons t rest =>
    have first : ys.head? = some t := by
      rw [← List.take_append_drop k ys, left]
      rfl
    refine h.reads finish (t :: rest) ?_
    rw [firstKind, first]
    rfl

theorem Divides.unique (divides : Divides tokens parts) :
    ∀ {other}, Divides tokens other → other = parts := by
  induction divides with
  | done =>
    intro other divides
    generalize none : [] = tokens at divides
    cases divides with
    | done => rfl
    | andThen first _ => exact absurd (List.append_eq_nil_iff.1 none.symm).1 first.statement_ne_nil
  | @andThen xs ys s parts first _ ih =>
    intro other divides
    generalize same : xs ++ ys = tokens at divides
    cases divides with
    | done => exact absurd (List.append_eq_nil_iff.1 same).1 first.statement_ne_nil
    | @andThen xs' ys' s' parts' first' later =>
      have read := (first.reads .start) ys rfl
      rw [same] at read
      cases read.unique ((first'.reads .start) ys' rfl)
      rw [List.append_cancel_right same, ih later]

end Grammar

open TinyScript.Parser

variable {tokens xs ys : List Token} {s : Stmt} {parts : List (List Token × Stmt)} {next : Token.Kind} {k : Nat}

theorem Program.ofTokens_take_behind (h : Derives (.statement (firstKind ys .endOfInput)) xs s) (finish : Location)
    (behind : xs.length ≤ k) :
    (Program.ofTokens ((xs ++ ys).take k) finish).1.statements =
        s :: (Program.ofTokens (ys.take (k - xs.length)) finish).1.statements ∧
      (Program.ofTokens ((xs ++ ys).take k) finish).2 = (Program.ofTokens (ys.take (k - xs.length)) finish).2 := by
  rw [List.take_append, List.take_of_length_le behind]
  exact Program.ofTokens_of_ok (h.kindAt_statement_ne _ (.inr (.inr rfl))) (h.settles_take finish _)

/-- A statement that is cut off fails at the end, or is a shorter one. -/
theorem Grammar.Derives.settles_atEnd (h : Derives (.statement next) xs s) (finish : Location)
    (within : k < xs.length) : ∃ r, Settles statement finish (xs.take k) r ∧ r.AtEnd := by
  obtain ⟨steps, run⟩ := h.last.reads finish [] rfl
  let n := max steps (8 * (xs.take k).length + 4)
  have settles : Settles statement finish (xs.take k) (statement n finish (xs.take k)) :=
    settles_of_agree (fun n => (steady n).statement) (Nat.le_max_right _ _)
  refine ⟨_, settles, ?_⟩
  have whole := run n (Nat.le_max_left _ _)
  rw [List.append_nil, ← List.take_append_drop k xs] at whole
  have short : CutShort (statement n) := @Throughout.statement _ _ _ (graded_cut.throughout n) []
  rcases short.cut.cut whole finish with ⟨mid, none, -⟩ | atEnd
  · have left : xs.drop k = [] := (List.append_eq_nil_iff.1 none.symm).2
    exact absurd (List.drop_eq_nil_iff.1 left) (by omega)
  · exact atEnd

theorem Program.place_of_take (h : Derives (.statement next) xs s) (finish : Location) (within : k < xs.length) :
    ∀ d ∈ (Program.ofTokens (xs.take k) finish).2, d.place = ("at end" : Text) := by
  by_cases none : xs.take k = []
  · rw [none]
    simp
  have going : kindAt (xs.take k) ≠ .endOfInput := by
    have begins := h.kindAt_statement_ne [] (.inr (.inr rfl))
    rwa [List.append_nil, ← List.take_append_drop k xs, kindAt_append none] at begins
  obtain ⟨r, settles, ends, blamed⟩ := h.settles_atEnd finish within
  have places : ∀ d ∈ r.errors.map (·.diagnostic), d.place = ("at end" : Text) := by
    intro d mem
    obtain ⟨e, found, rfl⟩ := List.mem_map.1 mem
    exact if_pos (blamed e found)
  cases r with
  | ok a rest errors =>
    obtain rfl : rest = [] := ends
    rw [(Program.ofTokens_of_ok going settles).2, (Program.ofTokens_nil finish).2, List.append_nil]
    exact places
  | failed resume errors =>
    obtain rfl : resume = [] := ends
    rw [(Program.ofTokens_of_failed going settles).2, (Program.ofTokens_nil finish).2, List.append_nil]
    exact places

theorem Grammar.Divides.place_of_take (divides : Divides tokens parts) (finish : Location) :
    ∀ k, ∀ d ∈ (Program.ofTokens (tokens.take k) finish).2, d.place = ("at end" : Text) := by
  induction divides with
  | done => simp
  | @andThen xs ys s parts first _ ih =>
    intro k
    by_cases behind : xs.length ≤ k
    · rw [(Program.ofTokens_take_behind first finish behind).2]
      exact ih _
    · rw [List.take_append_of_le_length (by omega)]
      exact Program.place_of_take first finish (by omega)

theorem Grammar.Divides.statements_take (divides : Divides tokens parts) (finish : Location) :
    ∀ {i k}, ((parts.take i).flatMap (·.1)).length ≤ k →
      (parts.take i).map (·.2) <+: (Program.ofTokens (tokens.take k) finish).1.statements := by
  induction divides with
  | done => simp
  | @andThen xs ys s parts first _ ih =>
    intro i k le
    cases i with
    | zero => exact List.nil_prefix
    | succ i =>
      simp only [List.take_succ_cons, List.flatMap_cons, List.length_append, List.map_cons] at le ⊢
      rw [(Program.ofTokens_take_behind first finish (by omega)).1]
      exact (List.prefix_cons_inj s).2 (ih (by omega))

theorem Grammar.Divides.ofTokens_boundary (divides : Divides tokens parts) (finish : Location) :
    ∀ i, (Program.ofTokens (tokens.take ((parts.take i).flatMap (·.1)).length) finish).1.statements =
        (parts.take i).map (·.2) ∧
      (Program.ofTokens (tokens.take ((parts.take i).flatMap (·.1)).length) finish).2 = [] := by
  induction divides with
  | done => simp
  | @andThen xs ys s parts first _ ih =>
    intro i
    cases i with
    | zero => simp
    | succ i =>
      simp only [List.take_succ_cons, List.flatMap_cons, List.length_append, List.map_cons]
      have read := Program.ofTokens_take_behind (k := xs.length + ((parts.take i).flatMap (·.1)).length) first finish
        (Nat.le_add_right _ _)
      rw [Nat.add_sub_cancel_left] at read
      rw [read.1, read.2, (ih i).1, (ih i).2]
      exact ⟨rfl, rfl⟩

/-- Tokens that are read without an error are divided among the statements of the program, in one way. When the source
ends earlier, all errors are found at its end, and the statements of which all tokens are left are the first ones of
the program. Behind the last token of a statement the source may end. -/
theorem Program.ofTokens_take (tokens : List Token) (finish : Location) (only : ∀ t ∈ tokens, t.kind ≠ .endOfInput)
    (clean : (Program.ofTokens tokens finish).2 = []) :
    ∃ parts, (∀ other, Divides tokens other ↔ other = parts) ∧
      parts.map (·.2) = (Program.ofTokens tokens finish).1.statements ∧
      ∀ k finish', (∀ d ∈ (Program.ofTokens (tokens.take k) finish').2, d.place = ("at end" : Text)) ∧
        ∀ i, (((parts.take i).flatMap (·.1)).length ≤ k →
            (parts.take i).map (·.2) <+: (Program.ofTokens (tokens.take k) finish').1.statements) ∧
          (((parts.take i).flatMap (·.1)).length = k →
            (Program.ofTokens (tokens.take k) finish').1.statements = (parts.take i).map (·.2) ∧
              (Program.ofTokens (tokens.take k) finish').2 = []) := by
  obtain ⟨parts, divides, same⟩ := (Program.ofTokens_derives only clean).divisible rfl
  refine ⟨parts, fun other => ⟨divides.unique, fun h => h ▸ divides⟩, same, fun k finish' =>
    ⟨divides.place_of_take finish' k, fun i => ⟨divides.statements_take finish', ?_⟩⟩⟩
  rintro rfl
  exact divides.ofTokens_boundary finish' i

/-- After the brace of `x; \x7b x \x7d` the block is found to be open at the end. -/
theorem Program.ofTokens_take_open :
    let tokens : List Token := [⟨.identifier, "x", ⟨1, 1⟩⟩, ⟨.semicolon, ";", ⟨1, 2⟩⟩, ⟨.leftBrace, "\x7b", ⟨1, 4⟩⟩,
      ⟨.identifier, "x", ⟨1, 6⟩⟩, ⟨.rightBrace, "\x7d", ⟨1, 8⟩⟩]
    (∀ t ∈ tokens, t.kind ≠ .endOfInput) ∧ (Program.ofTokens tokens ⟨1, 9⟩).2 = [] ∧
      (Program.ofTokens (tokens.take 3) ⟨1, 5⟩).2.length = 1 ∧
      ∀ k finish, ∀ d ∈ (Program.ofTokens (tokens.take k) finish).2, d.place = ("at end" : Text) := by
  intro tokens
  have only : ∀ t ∈ tokens, t.kind ≠ .endOfInput := by decide
  have clean : (Program.ofTokens tokens ⟨1, 9⟩).2 = [] := rfl
  obtain ⟨parts, -, -, taken⟩ := Program.ofTokens_take tokens ⟨1, 9⟩ only clean
  exact ⟨only, clean, rfl, fun k finish => (taken k finish).1⟩

end TinyScript
