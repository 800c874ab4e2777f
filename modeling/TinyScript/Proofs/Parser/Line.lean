import TinyScript.Proofs.Grammar.Program
import TinyScript.Proofs.Parser.Locality

namespace TinyScript

/-- Tokens after which the next semicolon still ends a statement. -/
def Token.Kind.isPlain : Token.Kind → Bool
  | semicolon | leftBrace | rightBrace | forWord | endOfInput => false
  | _ => true

/-- What stands in front of the first semicolon, with neither braces nor loop clauses. -/
def Plain (line : List Token) : Prop := ∀ t ∈ line, t.kind.isPlain

namespace Plain

variable {t : Token} {line left : List Token}

theorem tail (plain : Plain (t :: line)) : Plain line := fun u mem => plain u (List.mem_cons_of_mem t mem)

theorem suffix (plain : Plain line) (suffix : left <:+ line) : Plain left := fun t mem => plain t (suffix.subset mem)

theorem head_ne (plain : Plain (t :: line)) {kind : Token.Kind} (other : kind.isPlain = false) : t.kind ≠ kind := by
  intro same
  have isPlain := plain t List.mem_cons_self
  rw [same, other] at isPlain
  cases isPlain

end Plain

/-- Skipping to a boundary goes no further than behind the first semicolon. -/
theorem resync_line {semicolon : Token} (isSemicolon : semicolon.kind = .semicolon) (line more : List Token) :
    resync (line ++ semicolon :: more) = resync (line ++ [semicolon]) ++ more := by
  induction line with
  | nil => simp [resync, isSemicolon, Token.Kind.beginsStatement]
  | cons t line ih =>
    simp only [List.cons_append, resync]
    split
    · simp
    · split
      · simp
      · exact ih

/-- A success leaves the semicolon of a line where it is. A failure may go on behind it. -/
inductive Reply.Inside {α : Type} (line : List Token) (semicolon : Token) : Reply α → Prop
  | ok {a : α} {left : List Token} {errors : List GrammarError} : left <:+ line →
      Inside line semicolon (.ok a (left ++ [semicolon]) errors)
  | failed {resume : List Token} {errors : List GrammarError} : resume <:+ line ++ [semicolon] →
      Inside line semicolon (.failed resume errors)

namespace Parser

variable {α β : Type} {semicolon : Token} {line : List Token} {p : Parser α} {f : α → Parser β} {n : Nat}

/-- A parser of a part of a statement: it replies to a line without looking behind the semicolon. -/
def StopsAt (line : List Token) (semicolon : Token) (p : Parser α) : Prop :=
  ∃ r : Reply α, r.Inside line semicolon ∧ ∀ finish more, p finish (line ++ semicolon :: more) = r.extend more

/-- A parser of whole statements: it may take the semicolon of a line, but nothing behind it. Only an `else`
there could carry the statement on. -/
def EndsAt (line : List Token) (semicolon : Token) (p : Parser α) : Prop :=
  ∃ r : Reply α, r.rest <:+ line ++ [semicolon] ∧
    ∀ finish more, kindAt more ≠ .elseWord → p finish (line ++ semicolon :: more) = r.extend more

namespace StopsAt

theorem pure (a : α) : StopsAt line semicolon (pure a : Parser α) :=
  ⟨.ok a (line ++ [semicolon]) [], .ok List.suffix_rfl, fun _ _ => by simp [Reply.extend]⟩

theorem report (t : Token) (fault : GrammarFault) : StopsAt line semicolon (report t fault) :=
  ⟨.ok () (line ++ [semicolon]) [⟨t, fault⟩], .ok List.suffix_rfl, fun _ _ => by simp [Parser.report, Reply.extend]⟩

/-- Two parsers in sequence. The second one gets what the first one has left of the line. -/
theorem bind_of (first : StopsAt line semicolon p)
    (later : ∀ a left errors, left <:+ line → p .start (line ++ [semicolon]) = .ok a (left ++ [semicolon]) errors →
      StopsAt left semicolon (f a)) : StopsAt line semicolon (p >>= f) := by
  obtain ⟨r, inside, reply⟩ := first
  cases inside with
  | failed suffix => exact ⟨.failed _ _, .failed suffix, fun finish more => bind_failed (reply finish more)⟩
  | @ok a left errors suffix =>
    have run := reply .start []
    rw [Reply.extend, List.append_nil] at run
    obtain ⟨r, inside, behind⟩ := later a left errors suffix run
    refine ⟨r.behind errors, ?_, fun finish more => ?_⟩
    · cases inside with
      | ok inner => exact .ok (inner.trans suffix)
      | failed inner => exact .failed (inner.trans (List.suffix_append_self_iff.2 suffix))
    · rw [bind_ok (reply finish more), List.append_assoc, List.singleton_append, behind, Reply.behind_extend]

theorem bind (first : StopsAt line semicolon p) (later : ∀ a left, left <:+ line → StopsAt left semicolon (f a)) :
    StopsAt line semicolon (p >>= f) :=
  first.bind_of fun a left _ suffix _ => later a left suffix

/-- Behind a parser that takes something the line is shorter. -/
theorem bind_shorter (first : StopsAt line semicolon p) (consumes : Consumes p)
    (later : ∀ a left, left <:+ line → left.length < line.length → StopsAt left semicolon (f a)) :
    StopsAt line semicolon (p >>= f) := by
  refine first.bind_of fun a left errors suffix run => later a left suffix ?_
  have shorter := consumes.length_lt run
  simp only [List.length_append] at shorter
  omega

theorem cons {t : Token} {rest : List Token} {q : Parser α} (stops : StopsAt rest semicolon p)
    (same : ∀ finish more, q finish (t :: (rest ++ semicolon :: more)) = p finish (rest ++ semicolon :: more)) :
    StopsAt (t :: rest) semicolon q := by
  obtain ⟨r, inside, reply⟩ := stops
  refine ⟨r, ?_, fun finish more => ?_⟩
  · cases inside with
    | ok inner => exact .ok (inner.trans (List.suffix_cons t rest))
    | failed inner => exact .failed (inner.trans (List.suffix_cons t _))
  · rw [List.cons_append, same, reply]

theorem skip {t : Token} {rest : List Token} {f : Unit → Parser β} (later : StopsAt rest semicolon (f ())) :
    StopsAt (t :: rest) semicolon (Parser.skip >>= f) :=
  later.cons fun _ _ => skip_bind f

/-- A failure that skips to a boundary of the line. -/
theorem resync (errors : List GrammarError) (isSemicolon : semicolon.kind = .semicolon)
    (reply : ∀ finish more, p finish (line ++ semicolon :: more) =
      .failed (TinyScript.resync (line ++ semicolon :: more)) errors) : StopsAt line semicolon p := by
  refine ⟨.failed (TinyScript.resync (line ++ [semicolon])) errors, .failed (resync_suffix _), fun finish more => ?_⟩
  rw [reply, resync_line isSemicolon, Reply.extend]

theorem look {f : Token → Parser β} (last : line = [] → StopsAt line semicolon (f semicolon))
    (first : ∀ t rest, line = t :: rest → StopsAt line semicolon (f t)) :
    StopsAt line semicolon (Parser.look >>= f) := by
  cases line with
  | nil =>
    obtain ⟨r, inside, reply⟩ := last rfl
    exact ⟨r, inside, fun finish more => (look_bind f).trans (reply finish more)⟩
  | cons t rest =>
    obtain ⟨r, inside, reply⟩ := first t rest rfl
    exact ⟨r, inside, fun finish more => (look_bind f).trans (reply finish more)⟩

theorem accept {kind : Token.Kind} {f : Option Token → Parser β} (isSemicolon : semicolon.kind = .semicolon)
    (other : kind ≠ .semicolon) (missing : StopsAt line semicolon (f none))
    (found : ∀ t rest, line = t :: rest → t.kind = kind → StopsAt rest semicolon (f (some t))) :
    StopsAt line semicolon (Parser.accept kind >>= f) := by
  have absent (different : ∀ more, kindAt (line ++ semicolon :: more) ≠ kind) :
      StopsAt line semicolon (Parser.accept kind >>= f) := by
    obtain ⟨r, inside, reply⟩ := missing
    refine ⟨r, inside, fun finish more => ?_⟩
    rw [bind_ok (accept_eq_none (different more)), Reply.behind_nil, reply]
  cases line with
  | nil => exact absent fun more same => other (same.symm.trans isSemicolon)
  | cons t rest =>
    by_cases same : t.kind = kind
    · refine (found t rest rfl same).cons fun finish more => ?_
      rw [bind_ok (accept_eq_some same), Reply.behind_nil]
    · exact absent fun more => same

theorem expect {kind : Token.Kind} {fault : GrammarFault} {f : Token → Parser β}
    (isSemicolon : semicolon.kind = .semicolon) (other : kind ≠ .semicolon)
    (found : ∀ t rest, line = t :: rest → t.kind = kind → StopsAt rest semicolon (f t)) :
    StopsAt line semicolon (Parser.expect kind fault >>= f) := by
  have absent (t : Token) (rest : List Token → List Token) (same : ∀ more, line ++ semicolon :: more = t :: rest more)
      (different : t.kind ≠ kind) : StopsAt line semicolon (Parser.expect kind fault >>= f) := by
    refine .resync [⟨t, fault⟩] isSemicolon fun finish more => bind_failed ?_
    rw [same]
    simp only [Parser.expect, different, if_false]
  cases line with
  | nil => exact absent semicolon id (fun _ => rfl) fun same => other (same.symm.trans isSemicolon)
  | cons t rest =>
    by_cases same : t.kind = kind
    · exact (found t rest rfl same).cons fun finish more => expect_bind same f
    · exact absent t (rest ++ semicolon :: ·) (fun _ => rfl) same

/-- A token is taken. If it does not fit it is an error, and so is the semicolon. -/
theorem take {fault : GrammarFault} {f : Token → Parser β} (isSemicolon : semicolon.kind = .semicolon)
    (last : ∃ fault, f semicolon = reject semicolon fault)
    (first : ∀ t rest, line = t :: rest → StopsAt rest semicolon (f t) ∨ ∃ fault, f t = reject t fault)
    (plain : Plain line) : StopsAt line semicolon (Parser.take fault >>= f) := by
  cases line with
  | nil =>
    obtain ⟨fault, rejects⟩ := last
    refine ⟨.failed [] [⟨semicolon, fault⟩], .failed List.nil_suffix, fun finish more => ?_⟩
    rw [List.nil_append, take_bind, rejects, reject, resyncBehind, if_pos isSemicolon, Reply.extend, List.nil_append]
  | cons t rest =>
    rcases first t rest rfl with later | ⟨fault, rejects⟩
    · exact later.cons fun _ _ => take_bind _ f t
    · have notSemicolon : t.kind ≠ .semicolon := plain.head_ne rfl
      have stops : StopsAt rest semicolon (reject t fault : Parser β) :=
        .resync [⟨t, fault⟩] isSemicolon fun finish more => by rw [reject, resyncBehind, if_neg notSemicolon]
      exact stops.cons fun _ _ => by rw [take_bind, rejects]

theorem moreParameters (isSemicolon : semicolon.kind = .semicolon) (plain : Plain line)
    (enough : 8 * line.length + 9 ≤ n) : StopsAt line semicolon (moreParameters n) := by
  induction n generalizing line with
  | zero => omega
  | succ n ih =>
    refine .accept isSemicolon (by decide) (.pure _) fun comma rest same _ => ?_
    subst same
    refine .expect isSemicolon (by decide) fun name inside same _ => ?_
    subst same
    simp only [List.length_cons] at enough
    exact (ih plain.tail.tail (by omega)).bind fun more left _ => .pure _

theorem parameters (isSemicolon : semicolon.kind = .semicolon) (plain : Plain line)
    (enough : 8 * line.length + 9 ≤ n) : StopsAt line semicolon (parameters n) := by
  refine .accept isSemicolon (by decide) ?_ fun closing rest _ _ => .pure _
  refine .expect isSemicolon (by decide) fun name rest same _ => ?_
  subst same
  simp only [List.length_cons] at enough
  refine (moreParameters isSemicolon plain.tail (by omega)).bind fun more left _ => ?_
  exact .expect isSemicolon (by decide) fun closing rest _ _ => .pure _

theorem signature {f : List Text → Token → Parser β} (isSemicolon : semicolon.kind = .semicolon)
    (fault : GrammarFault) (plain : Plain line) (enough : 8 * line.length + 9 ≤ n) :
    StopsAt line semicolon (Parser.expect .leftParen fault >>= fun _ => Parser.parameters n >>= fun names =>
      Parser.expect .leftBrace .bodyOpen >>= f names) := by
  refine .expect isSemicolon (by decide) fun opening rest same _ => ?_
  subst same
  simp only [List.length_cons] at enough
  refine (parameters isSemicolon plain.tail (by omega)).bind fun names behind suffix => ?_
  refine .expect isSemicolon (by decide) fun brace body same kind => ?_
  subst same
  exact absurd kind ((plain.tail.suffix suffix).head_ne rfl)

end StopsAt

/-- With enough steps for a line, no parser of expressions looks behind its semicolon. -/
structure Halting (semicolon : Token) (n : Nat) : Prop where
  expression : ∀ {line} level, Plain line → 8 * line.length + 10 ≤ n → StopsAt line semicolon (expression n level)
  operand : ∀ {line}, Plain line → 8 * line.length + 9 ≤ n → StopsAt line semicolon (operand n)
  carryOn : ∀ {line} level left, Plain line → 8 * line.length + 9 ≤ n →
    StopsAt line semicolon (carryOn n level left)
  connect : ∀ {line} connective t left, Plain line → 8 * line.length + 12 ≤ n →
    StopsAt line semicolon (connect n connective t left)
  list : ∀ {line} close fault, close ≠ .semicolon → Plain line → 8 * line.length + 11 ≤ n →
    StopsAt line semicolon (list n close fault)
  moreExpressions : ∀ {line}, Plain line → 8 * line.length + 9 ≤ n → StopsAt line semicolon (moreExpressions n)
  functionLiteral : ∀ {line} location, Plain line → 8 * line.length + 10 ≤ n →
    StopsAt line semicolon (functionLiteral n location)
  declaration : ∀ {line} location, Plain line → 8 * line.length + 9 ≤ n →
    StopsAt line semicolon (declaration n location)

namespace Halting

variable (isSemicolon : semicolon.kind = .semicolon)

theorem expression_succ (ih : Halting semicolon n) (level : Nat) (plain : Plain line)
    (enough : 8 * line.length + 10 ≤ n + 1) : StopsAt line semicolon (Parser.expression (n + 1) level) := by
  have operand := ih.operand plain (by omega)
  exact operand.bind_shorter (forward n).operand fun left rest suffix shorter =>
    ih.carryOn level left (plain.suffix suffix) (by omega)

include isSemicolon

theorem operand_succ (ih : Halting semicolon n) (plain : Plain line) (enough : 8 * line.length + 9 ≤ n + 1) :
    StopsAt line semicolon (Parser.operand (n + 1)) := by
  refine .take isSemicolon ?_ (fun t rest same => ?_) plain
  · simp only [isSemicolon]
    exact ⟨_, rfl⟩
  · subst same
    have behind := plain.tail
    simp only [List.length_cons] at enough
    split
    case h_7 | h_8 => exact .inl ((ih.expression _ behind (by omega)).bind fun _ _ _ => .pure _)
    case h_9 =>
      refine .inl ((ih.expression _ behind (by omega)).bind fun inside left _ => ?_)
      exact .expect isSemicolon (by decide) fun closing rest _ _ => .pure _
    case h_10 => exact .inl ((ih.functionLiteral _ behind (by omega)).bind fun _ _ _ => .pure _)
    case h_11 => exact .inl ((ih.list _ _ (by decide) behind (by omega)).bind fun _ _ _ => .pure _)
    case h_12 brace => exact absurd brace (plain.head_ne rfl)
    case h_13 => exact .inr ⟨_, rfl⟩
    all_goals exact .inl (.pure _)

theorem carryOn_succ (ih : Halting semicolon n) (level : Nat) (left : Expr) (plain : Plain line)
    (enough : 8 * line.length + 9 ≤ n + 1) : StopsAt line semicolon (Parser.carryOn (n + 1) level left) := by
  refine .look (fun _ => ?_) fun t rest same => ?_
  · simp only [isSemicolon]
    exact .pure _
  · subst same
    simp only [List.length_cons] at enough
    split
    · exact .pure _
    · split
      · refine .skip ((ih.connect _ t left plain.tail (by omega)).bind fun whole behind suffix => ?_)
        have shorter := suffix.length_le
        exact ih.carryOn level whole (plain.tail.suffix suffix) (by omega)
      · exact .pure _

theorem connect_succ (ih : Halting semicolon n) (connective : Connective) (t : Token) (left : Expr)
    (plain : Plain line) (enough : 8 * line.length + 12 ≤ n + 1) :
    StopsAt line semicolon (Parser.connect (n + 1) connective t left) := by
  have value (level : Nat) : StopsAt line semicolon (Parser.expression n level) := ih.expression level plain (by omega)
  cases connective with
  | assign =>
    refine (value 0).bind fun assigned rest _ => ?_
    split
    · exact .pure _
    · exact (StopsAt.report t .assignmentTarget).bind fun _ _ _ => .pure _
  | logical op => exact (value _).bind fun _ _ _ => .pure _
  | binary op => exact (value _).bind fun _ _ _ => .pure _
  | call => exact (ih.list _ _ (by decide) plain (by omega)).bind fun _ _ _ => .pure _
  | index =>
    refine (value 0).bind fun inside rest _ => ?_
    exact .expect isSemicolon (by decide) fun closing rest _ _ => .pure _
  | member => exact .expect isSemicolon (by decide) fun name rest _ _ => .pure _

theorem list_succ (ih : Halting semicolon n) (close : Token.Kind) (fault : GrammarFault)
    (other : close ≠ .semicolon) (plain : Plain line) (enough : 8 * line.length + 11 ≤ n + 1) :
    StopsAt line semicolon (Parser.list (n + 1) close fault) := by
  refine .accept isSemicolon other ?_ fun closing rest _ _ => .pure _
  refine (ih.expression 0 plain (by omega)).bind fun first rest suffix => ?_
  have shorter := suffix.length_le
  refine (ih.moreExpressions (plain.suffix suffix) (by omega)).bind fun more behind _ => ?_
  exact .expect isSemicolon other fun closing rest _ _ => .pure _

theorem moreExpressions_succ (ih : Halting semicolon n) (plain : Plain line)
    (enough : 8 * line.length + 9 ≤ n + 1) : StopsAt line semicolon (Parser.moreExpressions (n + 1)) := by
  refine .accept isSemicolon (by decide) (.pure _) fun comma rest same _ => ?_
  subst same
  simp only [List.length_cons] at enough
  refine (ih.expression 0 plain.tail (by omega)).bind fun next behind suffix => ?_
  have shorter := suffix.length_le
  exact (ih.moreExpressions (plain.tail.suffix suffix) (by omega)).bind fun more last _ => .pure _

/-- A function has its body in braces, so in a line it is never complete. -/
theorem functionLiteral_succ (location : Location) (plain : Plain line) (enough : 8 * line.length + 10 ≤ n + 1) :
    StopsAt line semicolon (Parser.functionLiteral (n + 1) location) := by
  refine .accept isSemicolon (by decide) (.signature isSemicolon _ plain (by omega)) fun name rest same _ => ?_
  subst same
  simp only [List.length_cons] at enough
  exact .signature isSemicolon _ plain.tail (by omega)

theorem declaration_succ (ih : Halting semicolon n) (location : Location) (plain : Plain line)
    (enough : 8 * line.length + 9 ≤ n + 1) : StopsAt line semicolon (Parser.declaration (n + 1) location) := by
  refine .expect isSemicolon (by decide) fun name rest same _ => ?_
  subst same
  refine .accept isSemicolon (by decide) (.pure _) fun equals value same _ => ?_
  subst same
  simp only [List.length_cons] at enough
  exact (ih.expression 0 plain.tail.tail (by omega)).bind fun value rest _ => .pure _

end Halting

theorem halting (isSemicolon : semicolon.kind = .semicolon) (n : Nat) : Halting semicolon n := by
  induction n with
  | zero => constructor <;> intros <;> omega
  | succ n ih =>
    exact {
      expression := ih.expression_succ
      operand := ih.operand_succ isSemicolon
      carryOn := ih.carryOn_succ isSemicolon
      connect := ih.connect_succ isSemicolon
      list := ih.list_succ isSemicolon
      moreExpressions := ih.moreExpressions_succ isSemicolon
      functionLiteral := Halting.functionLiteral_succ isSemicolon
      declaration := ih.declaration_succ isSemicolon }

theorem StopsAt.ends (stops : StopsAt line semicolon p) : EndsAt line semicolon p := by
  obtain ⟨r, inside, reply⟩ := stops
  refine ⟨r, ?_, fun finish more _ => reply finish more⟩
  cases inside with
  | ok suffix => exact List.suffix_append_self_iff.2 suffix
  | failed suffix => exact suffix

theorem StopsAt.bind_ends (first : StopsAt line semicolon p)
    (later : ∀ a left, left <:+ line → EndsAt left semicolon (f a)) : EndsAt line semicolon (p >>= f) := by
  obtain ⟨r, inside, reply⟩ := first
  cases inside with
  | failed suffix => exact ⟨.failed _ _, suffix, fun finish more _ => bind_failed (reply finish more)⟩
  | @ok a left errors suffix =>
    obtain ⟨r, inner, behind⟩ := later a left suffix
    refine ⟨r.behind errors, ?_, fun finish more noElse => ?_⟩
    · rw [Reply.rest_behind]
      exact inner.trans (List.suffix_append_self_iff.2 suffix)
    · rw [bind_ok (reply finish more), List.append_assoc, List.singleton_append, behind finish more noElse,
        Reply.behind_extend]

namespace EndsAt

theorem cons {t : Token} {rest : List Token} {q : Parser α} (ends : EndsAt rest semicolon p)
    (same : ∀ finish more, q finish (t :: (rest ++ semicolon :: more)) = p finish (rest ++ semicolon :: more)) :
    EndsAt (t :: rest) semicolon q := by
  obtain ⟨r, inner, reply⟩ := ends
  refine ⟨r, inner.trans (List.suffix_cons t _), fun finish more noElse => ?_⟩
  rw [List.cons_append, same, reply finish more noElse]

theorem skip {t : Token} {rest : List Token} {f : Unit → Parser β} (later : EndsAt rest semicolon (f ())) :
    EndsAt (t :: rest) semicolon (Parser.skip >>= f) :=
  later.cons fun _ _ => skip_bind f

theorem look {f : Token → Parser β} (last : line = [] → EndsAt line semicolon (f semicolon))
    (first : ∀ t rest, line = t :: rest → EndsAt line semicolon (f t)) :
    EndsAt line semicolon (Parser.look >>= f) := by
  cases line with
  | nil =>
    obtain ⟨r, inner, reply⟩ := last rfl
    exact ⟨r, inner, fun finish more noElse => (look_bind f).trans (reply finish more noElse)⟩
  | cons t rest =>
    obtain ⟨r, inner, reply⟩ := first t rest rfl
    exact ⟨r, inner, fun finish more noElse => (look_bind f).trans (reply finish more noElse)⟩

/-- Behind a token of the line there is another one, or the semicolon. -/
theorem lookBehind {t : Token} {rest : List Token} {f : Token.Kind → Parser β}
    (later : ∀ kind, EndsAt (t :: rest) semicolon (f kind)) :
    EndsAt (t :: rest) semicolon (Parser.lookBehind >>= f) := by
  obtain ⟨r, inner, reply⟩ := later (kindAt (rest ++ [semicolon]))
  refine ⟨r, inner, fun finish more noElse => ?_⟩
  rw [← reply finish more noElse, lookBehind_bind]
  cases rest <;> rfl

theorem expect {kind : Token.Kind} {fault : GrammarFault} {f : Token → Parser β}
    (isSemicolon : semicolon.kind = .semicolon) (other : kind ≠ .semicolon)
    (found : ∀ t rest, line = t :: rest → t.kind = kind → EndsAt rest semicolon (f t)) :
    EndsAt line semicolon (Parser.expect kind fault >>= f) := by
  cases line with
  | nil =>
    refine StopsAt.ends (.expect isSemicolon other fun t rest same _ => ?_)
    cases same
  | cons t rest =>
    by_cases same : t.kind = kind
    · exact (found t rest rfl same).cons fun finish more => expect_bind same f
    · refine StopsAt.ends (.expect isSemicolon other fun u later head kind => ?_)
      cases head
      exact absurd kind same

/-- What a statement is made into does not change where it ends. -/
theorem map (ends : EndsAt line semicolon p) (g : α → β) : EndsAt line semicolon (p >>= fun a => pure (g a)) := by
  obtain ⟨r, inner, reply⟩ := ends
  refine ⟨r.map g, ?_, fun finish more noElse => ?_⟩
  · cases r <;> exact inner
  · have run := reply finish more noElse
    cases r with
    | ok a rest errors => simp [bind_ok run, Reply.behind, Reply.map, Reply.extend]
    | failed resume errors => exact bind_failed run

theorem recover (ends : EndsAt line semicolon p) : EndsAt line semicolon (Parser.recover p) := by
  obtain ⟨r, inner, reply⟩ := ends
  cases r with
  | ok a rest errors =>
    exact ⟨.ok (some a) rest errors, inner, fun finish more noElse => recover_eq_some (reply finish more noElse)⟩
  | failed resume errors =>
    exact ⟨.ok none resume errors, inner, fun finish more noElse => recover_eq_none (reply finish more noElse)⟩

theorem statementEnd (isSemicolon : semicolon.kind = .semicolon) (plain : Plain line) (fault : GrammarFault) :
    EndsAt line semicolon (statementEnd fault) := by
  refine .look (fun same => ?_) fun t rest same => ?_
  · subst same
    refine ⟨.ok () [] [], List.nil_suffix, fun finish more _ => ?_⟩
    rw [if_pos isSemicolon, List.nil_append]
    rfl
  · subst same
    have notBrace : t.kind ≠ .rightBrace := plain.head_ne rfl
    have notEnd : t.kind ≠ .endOfInput := plain.head_ne rfl
    have notSemicolon : t.kind ≠ .semicolon := plain.head_ne rfl
    simp only [notSemicolon, notBrace, notEnd, or_self, if_false]
    refine StopsAt.ends (.resync [⟨t, fault⟩] isSemicolon fun finish more => bind_failed ?_)
    simp only [List.cons_append, Parser.expect, notSemicolon, if_false]

theorem accept {kind : Token.Kind} {f : Option Token → Parser β} (isSemicolon : semicolon.kind = .semicolon)
    (other : kind ≠ .semicolon) {b : β} (missing : f none = pure b)
    (found : ∀ t rest, line = t :: rest → t.kind = kind → EndsAt rest semicolon (f (some t))) :
    EndsAt line semicolon (Parser.accept kind >>= f) := by
  have stops : StopsAt line semicolon (f none) := missing ▸ .pure b
  cases line with
  | nil =>
    refine StopsAt.ends (.accept isSemicolon other stops fun t rest same _ => ?_)
    cases same
  | cons t rest =>
    by_cases same : t.kind = kind
    · refine (found t rest rfl same).cons fun finish more => ?_
      rw [bind_ok (accept_eq_some same), Reply.behind_nil]
    · refine StopsAt.ends (.accept isSemicolon other stops fun u later head kind => ?_)
      cases head
      exact absurd kind same

/-- Behind a statement only an `else` of the same line is taken. -/
theorem bind_accept {f : α → Option Token → Parser β} {g : α → β} (isSemicolon : semicolon.kind = .semicolon)
    (first : EndsAt line semicolon p) (missing : ∀ a, f a none = pure (g a))
    (found : ∀ a t rest, t :: rest <:+ line → EndsAt rest semicolon (f a (some t))) :
    EndsAt line semicolon (p >>= fun a => Parser.accept .elseWord >>= f a) := by
  obtain ⟨r, inner, reply⟩ := first
  cases r with
  | failed resume errors =>
    exact ⟨.failed resume errors, inner, fun finish more noElse => bind_failed (reply finish more noElse)⟩
  | ok a rest errors =>
    rcases List.suffix_concat_iff.1 inner with none | ⟨left, same, suffix⟩
    · have none : rest = [] := none
      subst none
      refine ⟨.ok (g a) [] errors, List.nil_suffix, fun finish more noElse => ?_⟩
      rw [bind_ok (reply finish more noElse), List.nil_append, bind_ok (accept_eq_none noElse), missing]
      simp [Reply.behind, Reply.extend]
    · have same : rest = left ++ [semicolon] := same
      subst same
      have tail : EndsAt left semicolon (Parser.accept .elseWord >>= f a) :=
        .accept isSemicolon (by decide) (missing a) fun t rest same _ => found a t rest (same ▸ suffix)
      obtain ⟨r, inner, behind⟩ := tail
      refine ⟨r.behind errors, ?_, fun finish more noElse => ?_⟩
      · rw [Reply.rest_behind]
        exact inner.trans (List.suffix_append_self_iff.2 suffix)
      · rw [bind_ok (reply finish more noElse), List.append_assoc, List.singleton_append,
          behind finish more noElse, Reply.behind_extend]

end EndsAt

section Statements

variable (isSemicolon : semicolon.kind = .semicolon)

include isSemicolon

theorem expressionStatement_ends (location : Location) (plain : Plain line) (enough : 8 * line.length + 11 ≤ n) :
    EndsAt line semicolon (expressionStatement n location) := by
  cases n with
  | zero => omega
  | succ n =>
    refine ((halting isSemicolon n).expression 0 plain (by omega)).bind_ends fun value rest suffix => ?_
    exact (EndsAt.statementEnd isSemicolon (plain.suffix suffix) _).map fun _ => Stmt.expression location value

/-- The condition in parentheses behind a word, and what follows. -/
theorem condition_ends {opening closing : GrammarFault} {f : Expr → Parser β} (plain : Plain line)
    (enough : 8 * line.length + 10 ≤ n)
    (later : ∀ e left, left <:+ line → EndsAt left semicolon (f e)) :
    EndsAt line semicolon (do let _ ← Parser.expect .leftParen opening
                              let condition ← Parser.expression n 0
                              let _ ← Parser.expect .rightParen closing
                              f condition) := by
  refine .expect isSemicolon (by decide) fun _ inside same _ => ?_
  subst same
  simp only [List.length_cons] at enough
  refine ((halting isSemicolon n).expression 0 plain.tail (by omega)).bind_ends fun e rest suffix => ?_
  refine .expect isSemicolon (by decide) fun _ left same _ => later e left ?_
  subst same
  exact (List.suffix_cons _ left).trans (suffix.trans (List.suffix_cons _ inside))

/-- With enough steps for a line, a statement ends at its semicolon. -/
theorem statement_ends (n : Nat) : ∀ {line}, Plain line → 8 * line.length + 12 ≤ n →
    EndsAt line semicolon (statement n) := by
  induction n with
  | zero => exact fun _ enough => by omega
  | succ n ih =>
    intro line plain enough
    refine .look (fun same => ?_) fun t rest same => ?_
    · subst same
      simp only [isSemicolon]
      exact ⟨.ok _ [] [], List.nil_suffix, fun finish more _ => rfl⟩
    · subst same
      have behind := plain.tail
      simp only [List.length_cons] at enough
      split
      · have declares := (halting isSemicolon n).declaration t.location behind (by omega)
        refine .skip (declares.bind_ends fun declared left suffix => ?_)
        exact (EndsAt.statementEnd isSemicolon (behind.suffix suffix) _).map fun _ => declared
      · refine .lookBehind fun kind => ?_
        split
        · have literal := (halting isSemicolon n).functionLiteral t.location behind (by omega)
          exact .skip (literal.ends.map Stmt.function)
        · exact expressionStatement_ends isSemicolon _ plain (by simp only [List.length_cons]; omega)
      · refine .skip (condition_ends isSemicolon behind (by omega) fun e left suffix => ?_)
        have shorter := suffix.length_le
        refine .bind_accept (g := fun consequence => .ifElse t.location e consequence none) isSemicolon
          (ih (behind.suffix suffix) (by omega)) (fun _ => rfl) fun consequence other last inside => ?_
        have shorter := inside.length_le
        simp only [List.length_cons] at shorter
        exact (ih ((behind.suffix suffix).suffix inside).tail (by omega)).map _
      · refine .skip (condition_ends isSemicolon behind (by omega) fun e left suffix => ?_)
        have shorter := suffix.length_le
        exact (ih (behind.suffix suffix) (by omega)).map _
      · next word => exact absurd word (plain.head_ne rfl)
      · refine .skip (.look (fun same => ?_) fun next rest same => ?_)
        · subst same
          simp only [isSemicolon, true_or, if_true]
          exact (EndsAt.statementEnd isSemicolon behind _).map _
        · have ending := EndsAt.statementEnd isSemicolon behind .returnEnd
          split
          · exact ending.map _
          · refine ((halting isSemicolon n).expression 0 behind (by omega)).bind_ends fun value left suffix => ?_
            exact (EndsAt.statementEnd isSemicolon (behind.suffix suffix) _).map _
      · next brace => exact absurd brace (plain.head_ne rfl)
      · next kind => exact absurd kind (plain.head_ne rfl)
      · exact expressionStatement_ends isSemicolon _ plain (by simp only [List.length_cons]; omega)

/-- The first statement of a line is read the same whatever stands behind the semicolon, and takes at least one
token. -/
theorem settles_line (plain : Plain line) : ∃ (first : Option Stmt) (rest : List Token) (errors : List GrammarError),
    rest <:+ line ++ [semicolon] ∧ rest.length ≤ line.length ∧ ∀ finish more, kindAt more ≠ .elseWord →
      Settles (fun n => recover (statement n)) finish (line ++ semicolon :: more)
        (.ok first (rest ++ more) errors) := by
  have enough : 8 * (line ++ [semicolon]).length + 4 ≤ 8 * line.length + 12 := by
    simp only [List.length_append, List.length_singleton]
    omega
  obtain ⟨r, inner, reply⟩ := (statement_ends isSemicolon _ plain (Nat.le_refl _)).recover
  have alone := reply .start [] (by decide)
  cases r with
  | failed resume errors => exact (recover_ne_failed alone).elim
  | ok first rest errors =>
    refine ⟨first, rest, errors, inner, ?_, fun finish more noElse => ⟨8 * line.length + 12, fun n steps => ?_⟩⟩
    · have passes := (forward (8 * line.length + 12)).statement.cons
      rw [Reply.extend, List.append_nil] at alone
      cases line with
      | nil => exact recover_shorter passes alone
      | cons t line =>
        have shorter := recover_shorter passes alone
        simpa using shorter
    · obtain ⟨r, _, reply'⟩ := (statement_ends isSemicolon n plain steps).recover
      -- Enough steps for the line alone give the same reply as more steps.
      have same : r.extend [] = (Reply.ok first rest errors).extend [] := by
        rw [← alone, ← reply' .start [] (by decide)]
        exact ((steady n).statement ⟨by omega, enough⟩).recover.same
      rw [Reply.extend_injective same] at reply'
      exact reply' finish more noElse

end Statements

end Parser

open TinyScript.Parser

variable {line tokens : List Token} {semicolon : Token}

/-- A program that begins with a line is that line, and what follows. -/
theorem Program.ofTokens_line (isSemicolon : semicolon.kind = .semicolon) (plain : Plain line)
    (noElse : kindAt tokens ≠ .elseWord) (finish place : Location) :
    (Program.ofTokens (line ++ semicolon :: tokens) finish).1.statements =
        (Program.ofTokens (line ++ [semicolon]) place).1.statements ++ (Program.ofTokens tokens finish).1.statements ∧
      (Program.ofTokens (line ++ semicolon :: tokens) finish).2 =
        (Program.ofTokens (line ++ [semicolon]) place).2 ++ (Program.ofTokens tokens finish).2 := by
  induction size : line.length using Nat.strongRecOn generalizing line with
  | ind length ih =>
    have going (more : List Token) : kindAt (line ++ semicolon :: more) ≠ .endOfInput := by
      cases line with
      | nil => simp [isSemicolon]
      | cons t line => exact plain.head_ne rfl
    obtain ⟨first, rest, errors, suffix, shorter, settles⟩ := settles_line isSemicolon plain
    obtain ⟨statements, diagnostics⟩ := ofTokens_of_settles (going tokens) (settles finish tokens noElse)
    obtain ⟨statements', diagnostics'⟩ := ofTokens_of_settles (going []) (settles place [] (by decide))
    rw [statements, diagnostics, statements', diagnostics', List.append_nil]
    rcases List.suffix_concat_iff.1 suffix with none | ⟨left, same, inside⟩
    · have none : rest = [] := none
      simp [none]
    · have same : rest = left ++ [semicolon] := same
      have shorter : left.length < length := by
        simp only [same, List.length_append, List.length_singleton] at shorter
        omega
      obtain ⟨later, blamed⟩ := ih left.length shorter (plain.suffix inside) rfl
      rw [same, List.append_assoc, List.singleton_append, later, blamed, List.append_assoc, List.append_assoc]
      exact ⟨rfl, rfl⟩

/-- No statement begins with `else`. -/
theorem Grammar.Derives.kindAt_ne_elseWord {body : List Stmt} (h : Derives (.statements .endOfInput) tokens body) :
    kindAt tokens ≠ .elseWord := by
  cases h with
  | done => simp
  | andThen first more => exact first.kindAt_statement_ne _ (.inr (.inl rfl))

/-- Whatever stands in front of a semicolon, with neither braces nor loop clauses, an errorless program behind
it is read as if it stood alone, and adds no error. -/
theorem Program.ofTokens_behind_semicolon (line tokens : List Token) (semicolon : Token)
    (finish place alone : Location) (plain : ∀ t ∈ line, t.kind.isPlain) (isSemicolon : semicolon.kind = .semicolon)
    (only : ∀ t ∈ tokens, t.kind ≠ .endOfInput) (clean : (Program.ofTokens tokens alone).2 = []) :
    (Program.ofTokens (line ++ semicolon :: tokens) finish).2 = (Program.ofTokens (line ++ [semicolon]) place).2 ∧
      (Program.ofTokens (line ++ semicolon :: tokens) finish).1.statements =
        (Program.ofTokens (line ++ [semicolon]) place).1.statements ++
          (Program.ofTokens tokens alone).1.statements := by
  have derives := ofTokens_derives only clean
  obtain ⟨both, blamed⟩ := ofTokens_line isSemicolon plain derives.kindAt_ne_elseWord finish place
  rw [derives.ofTokens.2, List.append_nil] at blamed
  rw [derives.ofTokens.1] at both
  exact ⟨blamed, both⟩

/-- The line `) b var = ;` has two errors, and a declaration behind it is read. -/
theorem Program.ofTokens_behind_semicolon_declaration :
    let line : List Token := [⟨.rightParen, ")", ⟨1, 1⟩⟩, ⟨.identifier, "b", ⟨1, 3⟩⟩, ⟨.varWord, "var", ⟨1, 5⟩⟩,
      ⟨.assign, "=", ⟨1, 9⟩⟩]
    let semicolon : Token := ⟨.semicolon, ";", ⟨1, 11⟩⟩
    let tokens : List Token := [⟨.varWord, "var", ⟨2, 1⟩⟩, ⟨.identifier, "x", ⟨2, 5⟩⟩]
    (∀ t ∈ line, t.kind.isPlain) ∧ (∀ t ∈ tokens, t.kind ≠ .endOfInput) ∧ (Program.ofTokens tokens ⟨2, 6⟩).2 = [] ∧
      (Program.ofTokens (line ++ semicolon :: tokens) ⟨2, 6⟩).1.statements = [.var ⟨2, 1⟩ "x" none] ∧
      (Program.ofTokens (line ++ semicolon :: tokens) ⟨2, 6⟩).2.map (·.message) =
        [GrammarFault.expression.message, GrammarFault.variableName.message] := by
  intro line semicolon tokens
  have plain : ∀ t ∈ line, t.kind.isPlain := by decide
  have only : ∀ t ∈ tokens, t.kind ≠ .endOfInput := by decide
  obtain ⟨blamed, statements⟩ :=
    ofTokens_behind_semicolon line tokens semicolon ⟨2, 6⟩ ⟨1, 12⟩ ⟨2, 6⟩ plain rfl only rfl
  refine ⟨plain, only, rfl, ?_, ?_⟩
  · rw [statements]
    rfl
  · rw [blamed]
    rfl

end TinyScript
