import TinyScript.Proofs.Grammar.Program
import TinyScript.Proofs.Parser.Boundary
import TinyScript.Proofs.Parser.Locality

namespace TinyScript

open TinyScript.Parser

/-- The tokens in front of the body of a function without parameters. -/
structure FunctionHead where
  word : Token
  name : Token
  opening : Token
  closing : Token
  brace : Token
  isWord : word.kind = .functionWord
  isName : name.kind = .identifier
  opens : opening.kind = .leftParen
  closes : closing.kind = .rightParen
  begins : brace.kind = .leftBrace

namespace FunctionHead

def tokens (head : FunctionHead) : List Token := [head.word, head.name, head.opening, head.closing, head.brace]

/-- The function with a body. -/
def declare (head : FunctionHead) (body : List Stmt) : Stmt :=
  .function ⟨head.word.location, head.name.literal, [], head.brace.location, body⟩

end FunctionHead

/-- A body with its closing brace, of which nothing is left over when it is read, whatever errors it has. Skipping to a
statement boundary does not know of braces, so it can run over the closing one, or over an opening one inside. -/
def EndsItself (body : List Token) (closing : Token) (statements : List Stmt) (errors : List GrammarError) : Prop :=
  ∃ finish, blockBody (budget (body ++ [closing])) finish (body ++ [closing]) = .ok statements [] errors

namespace Parser

variable {n : Nat} {finish finish' : Location} {source rest : List Token} {statements : List Stmt}
  {errors : List GrammarError}

theorem blockBody_brace {t : Token} (kind : t.kind = .rightBrace) :
    blockBody (n + 1) finish (t :: source) = .ok [] source [] := by
  rw [blockBody, look_bind]
  simp only [List.head?_cons, Option.getD_some, kind, true_or, if_true]
  rw [expect_bind kind]
  rfl

theorem blockBody_end (kind : kindAt source = .endOfInput) : ∃ resume errors,
    blockBody (n + 1) finish source = .failed resume errors := by
  rw [blockBody, look_bind, look_kind]
  simp only [kind, or_true, if_true]
  cases source with
  | nil => exact ⟨_, _, rfl⟩
  | cons t source =>
    have kind : t.kind = .endOfInput := kind
    have failed : expect .rightBrace .blockEnd finish (t :: source) =
        .failed (resync (t :: source)) [⟨t, .blockEnd⟩] := by
      simp only [Parser.expect, kind, reduceCtorEq, if_false]
    exact ⟨_, _, bind_failed failed⟩

theorem blockBody_statement (noBrace : kindAt source ≠ .rightBrace) (noEnd : kindAt source ≠ .endOfInput) :
    blockBody (n + 1) finish source = (do
      let first ← recover (statement n)
      let more ← blockBody n
      pure (first.toList ++ more) : Parser _) finish source := by
  rw [blockBody, look_bind, look_kind]
  simp only [noBrace, noEnd, or_self, if_false]

/-- Reading a body that ends is not disturbed by what stands behind it. -/
theorem blockBody_append (run : blockBody n finish source = .ok statements [] errors) (finish' : Location)
    (more : List Token) : blockBody n finish' (source ++ more) = .ok statements more errors ∧
      ∀ e ∈ errors, e.found ∈ source := by
  induction n generalizing source statements errors with
  | zero => cases run
  | succ n ih =>
    by_cases brace : kindAt source = .rightBrace
    · cases source with
      | nil => cases brace
      | cons t source =>
        rw [blockBody_brace brace] at run
        cases run
        rw [List.cons_append, blockBody_brace brace]
        exact ⟨rfl, by simp⟩
    · by_cases last : kindAt source = .endOfInput
      · obtain ⟨resume, errors, failed⟩ := blockBody_end last
        cases run.symm.trans failed
      · have some : source ≠ [] := by
          rintro rfl
          exact last rfl
        rw [blockBody_statement brace last] at run
        obtain ⟨first, mid, before, _, attempt, tail, rfl⟩ := bind_eq_ok_iff.1 run
        obtain ⟨others, _, behind, _, body, done, rfl⟩ := bind_eq_ok_iff.1 tail
        cases done
        have left : mid ≠ [] := by
          rintro rfl
          obtain ⟨errors, open_⟩ := blockBody_nil n finish
          cases open_.symm.trans body
        obtain ⟨attempt', suffix, blamed⟩ := (locality n).statement.recover.append attempt left finish' more
        obtain ⟨body', inside⟩ := ih body
        rw [blockBody_statement (by rwa [kindAt_append some]) (by rwa [kindAt_append some]), bind_ok attempt',
          bind_ok body']
        refine ⟨by simp [Reply.behind], fun e mem => ?_⟩
        rw [List.append_nil] at mem
        rcases List.mem_append.1 mem with mem | mem
        · exact blamed e mem
        · exact suffix.subset (inside e mem)

theorem Settles.blockBody_append (run : blockBody (budget source) finish source = .ok statements [] errors)
    (finish' : Location) (more : List Token) :
    Settles blockBody finish' (source ++ more) (.ok statements more errors) := by
  have enough : 8 * source.length + 5 ≤ budget source := by unfold budget; omega
  have settles : Settles blockBody finish source _ := settles_of_agree (fun n => (steady n).blockBody) enough
  rw [run] at settles
  obtain ⟨steps, reply⟩ := settles
  exact ⟨steps, fun n more' => (Parser.blockBody_append (reply n more') finish' more).1⟩

end Parser

variable {head : FunctionHead} {body rest : List Token} {closing : Token} {finish : Location}
  {statements : List Stmt} {errors : List GrammarError}

theorem FunctionHead.going (head : FunctionHead) {inside : List Token} :
    kindAt (head.tokens ++ inside) ≠ .endOfInput := by simp [FunctionHead.tokens, head.isWord]

/-- A declaration of a function is read like its body. -/
theorem FunctionHead.settles (head : FunctionHead) {inside : List Token} {r : Reply (List Stmt)}
    (reads : Settles blockBody finish inside r) :
    Settles Parser.statement finish (head.tokens ++ inside) (r.map head.declare) := by
  refine .of_succ (.look ?_)
  simp only [FunctionHead.tokens, List.cons_append, List.nil_append, List.head?_cons, Option.getD_some, head.isWord]
  refine .lookBehind ?_
  simp only [kindAt_cons, head.isName, if_true]
  have literal : Settles (functionLiteral · head.word.location) finish
      (head.name :: head.opening :: head.closing :: head.brace :: inside)
      (r.map fun body => ⟨head.word.location, head.name.literal, [], head.brace.location, body⟩) := by
    refine .of_succ (.accept_some head.isName (.expect head.opens ?_))
    have names : Settles parameters finish ([] ++ head.closing :: head.brace :: inside) _ :=
      .parameters .empty head.closes
    exact names.andThen (.expect head.begins (reads.map _))
  have whole := literal.map Stmt.function
  rw [Reply.map_map] at whole
  exact .skip whole

/-- Behind a body that ends itself the program goes on as if it stood alone. -/
theorem EndsItself.ofTokens (ends : EndsItself body closing statements errors) (tokens : List Token)
    (finish : Location) :
    (Program.ofTokens (head.tokens ++ (body ++ closing :: tokens)) finish).1.statements =
        head.declare statements :: (Program.ofTokens tokens finish).1.statements ∧
      (Program.ofTokens (head.tokens ++ (body ++ closing :: tokens)) finish).2 =
        errors.map (·.diagnostic) ++ (Program.ofTokens tokens finish).2 ∧
      ∀ e ∈ errors, e.found ∈ body ++ [closing] := by
  obtain ⟨finish₀, run⟩ := ends
  have inside := Settles.blockBody_append run finish tokens
  rw [List.append_assoc] at inside
  obtain ⟨same, diagnostics⟩ := Program.ofTokens_of_ok head.going (head.settles inside)
  exact ⟨same, diagnostics, (blockBody_append run finish tokens).2⟩

namespace Parser

/-- Whatever is read has a property. -/
def Gives {α : Type} (P : α → Prop) (p : Parser α) : Prop :=
  ∀ finish source a rest errors, p finish source = .ok a rest errors → P a

variable {α β : Type} {P : α → Prop} {Q : β → Prop} {p : Parser α} {f : α → Parser β} {t : Token}

theorem Gives.bind_of (first : Gives P p) (later : ∀ a, P a → Gives Q (f a)) : Gives Q (p >>= f) := by
  intro finish source b rest errors run
  obtain ⟨a, mid, before, behind, run, reply, _⟩ := bind_eq_ok_iff.1 run
  exact later a (first finish source a mid before run) finish mid b rest behind reply

theorem Gives.bind (later : ∀ a, Gives Q (f a)) : Gives Q (p >>= f) :=
  .bind_of (P := fun _ => True) (fun _ _ _ _ _ _ => trivial) fun a _ => later a

theorem Gives.pure {b : β} (holds : Q b) : Gives Q (pure b) := by
  rintro finish source _ rest errors ⟨⟩
  exact holds

theorem Gives.exhausted : Gives Q exhausted := fun _ _ _ _ _ run => by cases run

theorem Gives.of_look {f : Token → Parser β} {b : β} (gives : Gives Q (f t))
    (run : (look >>= f) finish (t :: source) = .ok b rest errors) : Q b := by
  rw [look_bind] at run
  exact gives _ _ _ _ _ run

theorem Gives.declaration (n : Nat) (location : Location) :
    Gives (fun s => s.location = location) (declaration n location) := by
  cases n with
  | zero => exact .exhausted
  | succ n =>
    refine .bind fun name => .bind fun found => ?_
    cases found with
    | none => exact .pure rfl
    | some equals => exact .bind fun value => .pure rfl

theorem Gives.functionLiteral (n : Nat) (location : Location) :
    Gives (fun literal => literal.location = location) (functionLiteral n location) := by
  cases n with
  | zero => exact .exhausted
  | succ n => exact .bind fun _ => .bind fun _ => .bind fun _ => .bind fun _ => .bind fun _ => .pure rfl

theorem Gives.expressionStatement (n : Nat) (location : Location) :
    Gives (fun s => s.location = location) (expressionStatement n location) := by
  cases n with
  | zero => exact .exhausted
  | succ n => exact .bind fun value => .bind fun _ => .pure rfl

theorem forLoop_location (location : Location) (first : Option Stmt) (condition step : Option Expr) (body : Stmt) :
    (Stmt.forLoop location first condition step body).location = location := by
  cases first <;> rfl

/-- A statement stands at its first token. -/
theorem statement_location {s : Stmt} (run : statement n finish (t :: source) = .ok s rest errors) :
    s.location = t.location := by
  cases n with
  | zero => cases run
  | succ n =>
    refine Gives.of_look (Q := fun s => s.location = t.location) ?_ run
    split
    · exact .bind fun _ => .bind_of (.declaration n _) fun _ same => .bind fun _ => .pure same
    · refine .bind fun kind => ?_
      split
      · exact .bind fun _ => .bind_of (.functionLiteral n _) fun _ same => .pure same
      · exact .expressionStatement n _
    · refine .bind fun _ => .bind fun _ => .bind fun _ => .bind fun _ => .bind fun _ => .bind fun found => ?_
      cases found with
      | none => exact .pure rfl
      | some word => exact .bind fun _ => .pure rfl
    · exact .bind fun _ => .bind fun _ => .bind fun _ => .bind fun _ => .bind fun _ => .pure rfl
    · exact .bind fun _ => .bind fun _ => .bind fun _ => .bind fun _ => .bind fun _ => .bind fun _ =>
        .pure (forLoop_location _ _ _ _ _)
    · refine .bind fun _ => .bind fun next => ?_
      split
      · exact .bind fun _ => .pure rfl
      · exact .bind fun _ => .bind fun _ => .pure rfl
    · exact .bind fun _ => .bind fun _ => .pure rfl
    · exact .bind fun _ => .pure rfl
    · exact .expressionStatement n _

/-- A body that does not end leaves nothing behind. -/
theorem blockBody_failed (only : ∀ t ∈ source, t.kind ≠ .endOfInput)
    (run : blockBody n finish source = .failed rest errors) : rest = [] := by
  induction n generalizing source errors with
  | zero =>
    cases run
    rfl
  | succ n ih =>
    cases source with
    | nil =>
      cases run
      rfl
    | cons t source =>
      by_cases brace : kindAt (t :: source) = .rightBrace
      · rw [blockBody_brace brace] at run
        cases run
      · rw [blockBody_statement brace (only t List.mem_cons_self)] at run
        rcases bind_eq_failed_iff.1 run with run | ⟨first, mid, _, _, attempt, run, _⟩
        · exact (recover_ne_failed run).elim
        · have suffix := (forward n).statement.advances.recover finish (t :: source)
          rw [attempt] at suffix
          rcases bind_eq_failed_iff.1 run with run | ⟨_, _, _, _, _, done, _⟩
          · exact ih (fun t mem => only t (suffix.subset mem)) run
          · cases done

theorem settles_statement (source : List Token) (finish : Location) :
    ∃ r, Settles statement finish source r := ⟨_, settles_of_agree (fun n => (steady n).statement) (Nat.le_refl _)⟩

end Parser

/-- Where a statement runs over the end of its source, and over a semicolon that is put behind it, nothing is
left of the semicolon either. -/
theorem Parser.statement_semicolon {semicolon : Token} {resume : List Token} {errors errors' : List GrammarError}
    (isBrace : closing.kind = .rightBrace) (isSemicolon : semicolon.kind = .semicolon) {n : Nat}
    (run : statement n finish (body ++ [closing]) = .failed [] errors)
    (run' : statement n finish (body ++ [closing] ++ [semicolon]) = .failed resume errors') : resume = [] := by
  have suffix := (forward n).statement.advances finish (body ++ [closing] ++ [semicolon])
  rw [run'] at suffix
  rcases List.suffix_concat_iff.1 suffix with nothing | ⟨front, rfl, inside⟩
  · exact nothing
  · by_cases empty : front = []
    · -- The semicolon would be a boundary, but it begins no statement and stands behind a brace.
      subst empty
      have isBounded : Bounded (statement n) := @Everywhere.statement _ n (bounded n) []
      cases isBounded.boundary _ _ _ _ run' with
      | word begins => simp [isSemicolon, Token.Kind.beginsStatement] at begins
      | @behind other _ kind within =>
        obtain ⟨front, same⟩ := within
        have same : front ++ [other] ++ [semicolon] = body ++ [closing] ++ [semicolon] := by simpa using same
        obtain ⟨same, -⟩ := List.append_singleton_inj.1 same
        obtain ⟨-, rfl⟩ := List.append_singleton_inj.1 same
        cases kind.symm.trans isBrace
    · -- Reading would stop among the common tokens, whether or not the semicolon stands behind them.
      have exchanged := (locality n).statement.exchange (r := .failed front errors') run' empty finish []
      have stops : statement n finish (body ++ [closing]) = .failed front errors' := by
        simpa [Reply.extend] using exchanged.1
      cases run.symm.trans stops
      exact absurd rfl empty

/-- Tokens that end with a closing brace and of which no statement is made take a semicolon with them that is
put behind. -/
theorem Program.ofTokens_semicolon {semicolon : Token} (isBrace : closing.kind = .rightBrace)
    (isSemicolon : semicolon.kind = .semicolon) (only : ∀ t ∈ body ++ [closing], t.kind ≠ .endOfInput)
    (fresh : ∀ t ∈ body ++ [closing], t.location ≠ semicolon.location)
    (alone : (Program.ofTokens (body ++ [closing]) finish).1.statements = []) :
    (Program.ofTokens (body ++ [closing] ++ [semicolon]) finish).1.statements ≠ [.block semicolon.location []] := by
  induction size : body.length using Nat.strongRecOn generalizing body with
  | ind size ih =>
    have some : body ++ [closing] ≠ [] := by simp
    have going : kindAt (body ++ [closing]) ≠ .endOfInput := by
      cases body with
      | nil => exact only closing List.mem_cons_self
      | cons t rest => exact only t List.mem_cons_self
    have going' : kindAt (body ++ [closing] ++ [semicolon]) ≠ .endOfInput := by rwa [kindAt_append some]
    obtain ⟨r, settles⟩ := settles_statement (body ++ [closing]) finish
    cases r with
    | ok s mid errors =>
      rw [(Program.ofTokens_of_ok going settles).1] at alone
      cases alone
    | failed resume errors =>
      rw [(Program.ofTokens_of_failed going settles).1] at alone
      obtain ⟨k, reply⟩ := settles
      by_cases none : resume = []
      · subst none
        obtain ⟨r', settles'⟩ := settles_statement (body ++ [closing] ++ [semicolon]) finish
        obtain ⟨k', reply'⟩ := id settles'
        have run := reply (max k k') (Nat.le_max_left k k')
        have run' := reply' (max k k') (Nat.le_max_right k k')
        cases r' with
        | ok s mid errors' =>
          rw [(Program.ofTokens_of_ok going' settles').1]
          intro block
          obtain ⟨t, source, same⟩ := List.exists_cons_of_ne_nil some
          rw [same] at run' fresh
          have place : s.location = t.location := statement_location run'
          rw [(List.cons.inj block).1] at place
          exact fresh t List.mem_cons_self place.symm
        | failed resume' errors' =>
          rw [(Program.ofTokens_of_failed going' settles').1, statement_semicolon isBrace isSemicolon run run']
          simp
      · have settles' : Settles statement finish (body ++ [closing] ++ [semicolon])
            (.failed (resume ++ [semicolon]) errors) :=
          ⟨k, fun n enough => ((locality n).statement.append (reply n enough) none finish [semicolon]).1⟩
        have shorter := (forward k).statement.length_lt_of_failed some (reply k (Nat.le_refl k))
        have suffix := (forward k).statement.advances finish (body ++ [closing])
        rw [reply k (Nat.le_refl k)] at suffix
        rw [(Program.ofTokens_of_failed going' settles').1]
        rcases List.suffix_concat_iff.1 suffix with nothing | ⟨front, rfl, inside⟩
        · exact absurd nothing none
        · simp only [List.length_append, List.length_cons, List.length_nil] at shorter
          exact ih front.length (by omega) (fun t mem => only t (suffix.subset mem))
            (fun t mem => fresh t (suffix.subset mem)) alone rfl

/-- A location that no token has. -/
theorem exists_fresh (tokens : List Token) : ∃ location, ∀ t ∈ tokens, t.location ≠ location := by
  obtain ⟨bound, above⟩ : ∃ bound, ∀ t ∈ tokens, t.location.line < bound := by
    induction tokens with
    | nil => exact ⟨0, by simp⟩
    | cons t rest ih =>
      obtain ⟨bound, above⟩ := ih
      refine ⟨max bound (t.location.line + 1), fun u mem => ?_⟩
      rcases List.mem_cons.1 mem with rfl | mem
      · omega
      · have := above u mem
        omega
  refine ⟨⟨bound, 1⟩, fun t mem same => ?_⟩
  have := above t mem
  rw [same] at this
  exact Nat.lt_irrefl _ this

/-- What stands behind a function is read as if it stood alone, and no error is found at it. -/
def Undisturbed (head : FunctionHead) (body : List Token) (closing : Token) (tokens : List Token)
    (finish : Location) : Prop :=
  ∃ (statements : List Stmt) (errors : List GrammarError),
    (Program.ofTokens (head.tokens ++ (body ++ closing :: tokens)) finish).1.statements =
        head.declare statements :: (Program.ofTokens tokens finish).1.statements ∧
      (Program.ofTokens (head.tokens ++ (body ++ closing :: tokens)) finish).2 =
        errors.map (·.diagnostic) ++ (Program.ofTokens tokens finish).2 ∧
      ∀ e ∈ errors, e.found ∈ body ++ [closing]

/-- A body that stops before its closing brace leaves the rest of its tokens to the program. -/
theorem Undisturbed.left_over {place : Location} (some : rest ≠ [])
    (run : Settles blockBody place (body ++ [closing]) (.ok statements rest errors)) (tokens : List Token)
    (undisturbed : Undisturbed head body closing tokens place) :
    (Program.ofTokens (rest ++ tokens) place).1.statements = (Program.ofTokens tokens place).1.statements := by
  obtain ⟨k, reply⟩ := run
  have isLocal (n : Nat) : Local [] (blockBody n) := (locality n).blockBody
  have inside : Settles blockBody place (body ++ [closing] ++ tokens) (.ok statements (rest ++ tokens) errors) :=
    ⟨k, fun n enough => ((isLocal n).append (reply n enough) some place tokens).1⟩
  rw [List.append_assoc] at inside
  obtain ⟨same, -⟩ := Program.ofTokens_of_ok head.going (head.settles inside)
  obtain ⟨_, _, same', -, -⟩ := undisturbed
  exact (List.cons.inj (same.symm.trans same')).2

/-- A body that does not end itself disturbs some program behind it. -/
theorem Undisturbed.endsItself (isBrace : closing.kind = .rightBrace) (only : ∀ t ∈ body, t.kind ≠ .endOfInput)
    (undisturbed : ∀ tokens finish, (Program.ofTokens tokens finish).2 = [] →
      Undisturbed head body closing tokens finish) : ∃ statements errors,
        EndsItself body closing statements errors := by
  have only : ∀ t ∈ body ++ [closing], t.kind ≠ .endOfInput := by
    intro t mem
    rcases List.mem_append.1 mem with mem | mem
    · exact only t mem
    · obtain rfl := List.mem_singleton.1 mem
      simp [isBrace]
  obtain ⟨place, fresh⟩ := exists_fresh (body ++ [closing])
  have settles : Settles blockBody place (body ++ [closing]) _ :=
    settles_of_agree (fun n => (steady n).blockBody) (enough_budget _).left
  cases run : blockBody (budget (body ++ [closing])) place (body ++ [closing]) with
  | failed resume errors =>
    -- The function is left out together with all that follows.
    rw [run, blockBody_failed only run] at settles
    obtain ⟨none, -⟩ := Program.ofTokens_of_failed head.going (head.settles settles)
    obtain ⟨_, _, same, -, -⟩ := undisturbed [] place rfl
    cases none.symm.trans same
  | ok statements rest errors =>
    rw [run] at settles
    by_cases none : rest = []
    · subst none
      exact ⟨statements, errors, place, run⟩
    · -- What is left over takes the first semicolon of the program behind it.
      have suffix := (forward (budget (body ++ [closing]))).blockBody place (body ++ [closing])
      rw [run] at suffix
      rcases List.suffix_concat_iff.1 suffix with nothing | ⟨front, rfl, -⟩
      · exact absurd nothing none
      · have alone := (undisturbed [] place rfl).left_over none settles
        have semicolon := (undisturbed [⟨.semicolon, ";", place⟩] place rfl).left_over none settles
        rw [List.append_nil] at alone
        exact absurd semicolon (Program.ofTokens_semicolon isBrace rfl (fun t mem => only t (suffix.subset mem))
          (fun t mem => fresh t (suffix.subset mem)) alone)

/-- Whether a malformed body disturbs what follows depends on the body alone. -/
theorem undisturbed_iff_endsItself (head : FunctionHead) (body : List Token) (closing : Token)
    (isBrace : closing.kind = .rightBrace) (only : ∀ t ∈ body, t.kind ≠ .endOfInput) :
    (∀ tokens finish, (Program.ofTokens tokens finish).2 = [] → Undisturbed head body closing tokens finish) ↔
      ∃ statements errors, EndsItself body closing statements errors := by
  constructor
  · exact Undisturbed.endsItself isBrace only
  · rintro ⟨statements, errors, ends⟩ tokens finish _
    exact ⟨statements, errors, ends.ofTokens tokens finish⟩

/-- The beginning `function f() \x7b` of a source. -/
def FunctionHead.atStart : FunctionHead where
  word := ⟨.functionWord, "function", ⟨1, 1⟩⟩
  name := ⟨.identifier, "f", ⟨1, 10⟩⟩
  opening := ⟨.leftParen, "(", ⟨1, 11⟩⟩
  closing := ⟨.rightParen, ")", ⟨1, 12⟩⟩
  brace := ⟨.leftBrace, "\x7b", ⟨1, 14⟩⟩
  isWord := rfl
  isName := rfl
  opens := rfl
  closes := rfl
  begins := rfl

/-- In the body `( ;` the error ends at the semicolon, so a declaration behind the body is not disturbed. -/
theorem undisturbed_of_semicolon :
    let body : List Token := [⟨.leftParen, "(", ⟨1, 16⟩⟩, ⟨.semicolon, ";", ⟨1, 18⟩⟩]
    let closing : Token := ⟨.rightBrace, "\x7d", ⟨1, 20⟩⟩
    closing.kind = .rightBrace ∧ (∀ t ∈ body, t.kind ≠ .endOfInput) ∧
      Undisturbed .atStart body closing
        [⟨.varWord, "var", ⟨1, 22⟩⟩, ⟨.identifier, "x", ⟨1, 26⟩⟩, ⟨.semicolon, ";", ⟨1, 27⟩⟩] ⟨1, 28⟩ := by
  intro body closing
  have only : ∀ t ∈ body, t.kind ≠ .endOfInput := by decide
  refine ⟨rfl, only, (undisturbed_iff_endsItself .atStart body closing rfl only).2 ?_ _ _ rfl⟩
  exact ⟨[], [⟨⟨.semicolon, ";", ⟨1, 18⟩⟩, .expression⟩], ⟨1, 28⟩, rfl⟩

/-- How many braces are open behind some tokens, unless more are closed than were opened. -/
def openBraces : List Token → Nat → Option Nat
  | [], opened => some opened
  | t :: rest, opened =>
    if t.kind = .leftBrace then openBraces rest (opened + 1)
    else if t.kind = .rightBrace then
      match opened with
      | 0 => none
      | opened + 1 => openBraces rest opened
    else openBraces rest opened

/-- Braces that match are not enough. The error in the body `(` is found at its closing brace, which is skipped,
so the declaration behind it is read as part of the body, and the whole is left out at the end. -/
theorem balanced_body_disturbs :
    ¬ ∀ (head : FunctionHead) (body : List Token) (closing : Token) (tokens : List Token) (finish : Location),
      closing.kind = .rightBrace → openBraces body 0 = some 0 → (∀ t ∈ body ++ tokens, t.kind ≠ .endOfInput) →
      (Program.ofTokens tokens finish).2 = [] →
      (∃ front, (Program.ofTokens (head.tokens ++ (body ++ closing :: tokens)) finish).1.statements =
          front ++ (Program.ofTokens tokens finish).1.statements) ∧
        ∃ errors : List GrammarError,
          (Program.ofTokens (head.tokens ++ (body ++ closing :: tokens)) finish).2 = errors.map (·.diagnostic) ∧
            ∀ e ∈ errors, e.found ∈ head.tokens ++ (body ++ [closing]) := by
  intro claimed
  let tokens : List Token := [⟨.varWord, "var", ⟨1, 20⟩⟩, ⟨.identifier, "x", ⟨1, 24⟩⟩, ⟨.semicolon, ";", ⟨1, 25⟩⟩]
  obtain ⟨⟨front, same⟩, -⟩ :=
    claimed .atStart [⟨.leftParen, "(", ⟨1, 16⟩⟩] ⟨.rightBrace, "\x7d", ⟨1, 18⟩⟩ tokens ⟨1, 26⟩
    rfl rfl (by decide) rfl
  have nothing : front ++ [Stmt.var ⟨1, 20⟩ "x" none] = [] := same.symm
  simp at nothing

end TinyScript
