import TinyScript.Proofs.Evaluation.Purity
import TinyScript.Proofs.Evaluation.Repeating
import TinyScript.Proofs.Grammar.Program
import TinyScript.Proofs.Printer.Expressions
import TinyScript.Proofs.Session.Reports
import TinyScript.Proofs.Store.Data

namespace TinyScript

open Evaluation Grammar Store

variable {s s' : Store} {v w : Value} {e : Expr} {n : Nat}

/-- The expression is evaluated, in steps that depend on nothing but its size, to data like this, and leaves alone what
is there. -/
def Expr.Makes (s : Store) (v : Value) (e : Expr) : Prop := ∀ n, sizeOf e ≤ n → ∀ context st, ∃ w st',
  eval n context e st = .done w st' ∧ st.Untouched st' ∧ SameData s st'.store v w

/-- An expression whose value depends on nothing. -/
theorem makes_plainly (same : ∀ s', SameData s s' v w)
    (runs : ∀ n, sizeOf e ≤ n + 1 → ∀ context st, eval (n + 1) context e st = .done w { st with latest := w }) :
    e.Makes s v := by
  rintro (_ | n) enough context st
  · exact absurd enough (by cases e <;> simp)
  · exact ⟨w, _, runs n enough context st, ⟨.refl _, rfl⟩, same _⟩

theorem evalAll_makes {vs : List Value} {es : List Expr} (makes : List.Forall₂ (fun v e => e.Makes s v) vs es)
    (enough : sizeOf es ≤ n) (context : Context) (st : State) (before : List Value) : ∃ ws st',
      evalAll n context before es st = .done (before.reverse ++ ws) st' ∧ st.Untouched st' ∧
        List.Forall₂ (SameData s st'.store) vs ws := by
  induction makes generalizing n st before with
  | nil =>
    obtain ⟨n, rfl⟩ : ∃ k, n = k + 1 := ⟨n - 1, by simp at enough; omega⟩
    exact ⟨[], st, by rw [List.append_nil]; rfl, .refl st, .nil⟩
  | @cons v e vs es make _ ih =>
    obtain ⟨n, rfl⟩ : ∃ k, n = k + 1 := ⟨n - 1, by simp at enough; omega⟩
    simp only [List.cons.sizeOf_spec] at enough
    obtain ⟨w, st₁, run, first, same⟩ := make n (by omega) context st
    obtain ⟨ws, st₂, rest, second, others⟩ := ih (n := n) (by omega) st₁ (w :: before)
    refine ⟨w :: ws, st₂, ?_, first.trans second, .cons (same.mono second.store) others⟩
    rw [evalAll, Run.bind_apply, run]
    exact rest.trans (by rw [List.reverse_cons, List.append_assoc]; rfl)

theorem makes_array {id : ArrayId} {location : Location} {es : List Expr}
    (makes : List.Forall₂ (fun v e => e.Makes s v) (s.elements id).toList es) :
    (Expr.array location es).Makes s (.array id) := by
  rintro (_ | n) enough context st
  · simp at enough
  · simp only [Expr.array.sizeOf_spec] at enough
    obtain ⟨ws, st', run, untouched, same⟩ := evalAll_makes makes (n := n) (by omega) context.inside st []
    let made := st'.store.newArray ws.toArray
    refine ⟨.array made.1, { st' with store := made.2, latest := .array made.1 }, ?_,
      ⟨untouched.store.trans (.newArray _ ws.toArray), untouched.printed⟩, SameData.newArray same⟩
    show Run.keeping (do return .array (← .creating (·.newArray (← evalAll n context.inside [] es).toArray))) st = _
    rw [Run.keeping, Run.bind_apply, Run.bind_apply, run]
    rfl

/-- The tokens are an expression for data like this. A statement does not take them for a block or a declaration. -/
def Value.ReadsBack (s : Store) (v : Value) (xs : List Token) : Prop :=
  ∃ e, Derives (.expr .unary) xs e ∧ e.Makes s v ∧ kindAt xs ≠ .leftBrace ∧ kindAt xs ≠ .functionWord

theorem Value.ReadsBack.inside {xs : List Token} (reads : v.ReadsBack s xs) :
    ∃ e, Derives (.expr .expression) xs e ∧ e.Makes s v := by
  obtain ⟨e, derives, makes, _⟩ := reads
  exact ⟨e, derives.loosen _ (by decide), makes⟩

/-- A value that is written as a single token. -/
theorem readsBack_of_literal {t : Token} {kind : Token.Kind} (isKind : t.kind = kind)
    (plain : kind ≠ .leftBrace ∧ kind ≠ .functionWord) (literal : Literal t e) (makes : e.Makes s v) :
    v.ReadsBack s [t] := by
  refine ⟨e, (Derives.literal literal).loosen _ (by decide), makes, ?_⟩
  show t.kind ≠ _ ∧ t.kind ≠ _
  rwa [isKind]

theorem phrase_number {x : Float} (finite : x.isFinite) (normal : ZeroOrNormal x) (rest : Text) (clear : Clear rest) :
    Phrase (numberText x) (Value.ReadsBack s (.number x)) rest := by
  obtain ⟨y, magnitude, normal, ⟨text, same⟩ | ⟨text, same⟩⟩ := numberText_signed finite normal
  all_goals obtain ⟨spelling, spelled, reads⟩ := numberText_spelled magnitude normal
  all_goals have digits := Phrase.number reads clear
  · rw [text, ← spelled]
    refine digits.mono ?_
    rintro _ ⟨t, rfl, isNumber, _⟩
    refine readsBack_of_literal isNumber (by simp) (.number isNumber)
      (makes_plainly (w := .number y) (fun _ => same ▸ .number x) fun _ _ _ _ => rfl)
  · rw [text, ← spelled]
    have sign : Phrase "-" (One .minus "-") (spelling.text ++ rest) := .mark (b := ascii '-') rfl (by decide)
    refine (sign.append digits).mono ?_
    rintro _ ⟨_, _, rfl, ⟨sign, rfl, isSign, _⟩, t, rfl, isNumber, _⟩
    have operand : Derives (.expr .unary) [t] _ := (Derives.literal (.number isNumber)).loosen _ (by decide)
    have signed : Sign sign.kind .negate := isSign ▸ .negate
    have negative (s' : Store) : Store.SameData s s' (.number x) (.number (-y)) := same ▸ .number x
    refine ⟨_, .sign signed operand, makes_plainly negative fun n enough _ _ => ?_, ?_⟩
    · obtain ⟨n, rfl⟩ : ∃ k, n = k + 1 := ⟨n - 1, by simp at enough; omega⟩
      rfl
    · show sign.kind ≠ _ ∧ sign.kind ≠ _
      simp [isSign]

/-- The text of data is an expression for it, wherever the text stands. -/
theorem Store.Data.phrase (data : s.Data v) (rest : Text) (clear : Clear rest) :
    Phrase (s.inspect v) (v.ReadsBack s) rest := by
  induction data generalizing rest with
  | null =>
    have word : Phrase "null" (One .nullWord "null") rest := Phrase.word (w := "null") (by decide) clear
    refine word.mono ?_
    rintro _ ⟨t, rfl, isNull, _⟩
    exact readsBack_of_literal isNull (by decide) (.nullWord isNull) (makes_plainly (fun _ => .null) fun _ _ _ _ => rfl)
  | boolean value =>
    cases value with
    | true =>
      have word : Phrase "true" (One .trueWord "true") rest := Phrase.word (w := "true") (by decide) clear
      refine word.mono ?_
      rintro _ ⟨t, rfl, isTrue, _⟩
      exact readsBack_of_literal isTrue (by decide) (.trueWord isTrue)
        (makes_plainly (fun _ => .boolean true) fun _ _ _ _ => rfl)
    | false =>
      have word : Phrase "false" (One .falseWord "false") rest := Phrase.word (w := "false") (by decide) clear
      refine word.mono ?_
      rintro _ ⟨t, rfl, isFalse, _⟩
      exact readsBack_of_literal isFalse (by decide) (.falseWord isFalse)
        (makes_plainly (fun _ => .boolean false) fun _ _ _ _ => rfl)
  | number finite normal => exact phrase_number finite normal rest clear
  | string value =>
    refine (Phrase.string value.text rest).mono ?_
    rintro _ ⟨t, rfl, isString, _⟩
    exact readsBack_of_literal isString (by simp) (.string isString)
      (makes_plainly (fun _ => .string value) fun _ _ _ _ => rfl)
  | @array id data ih =>
    have elements : Phrase (Text.join ", " ((s.elements id).toList.map s.inspect))
        (Joined (One .comma ",") (Value.ReadsBack s) (s.elements id).toList) ("]" ++ rest) :=
      .join (fun v mem => ih v (Array.mem_toList_iff.1 mem)) .comma clear_comma (.cons (by decide))
    rw [(Data.array data).inspect_array]
    refine (((Phrase.leftBracket _).append elements).append (.rightBracket rest)).mono ?_
    rintro _ ⟨_, _, rfl, ⟨_, xs, rfl, ⟨opening, rfl, isOpen, _⟩, joined⟩, closing, rfl, isClose, _⟩
    obtain ⟨es, list, makes⟩ := derives_list (fun _ _ reads => Value.ReadsBack.inside reads) joined
    refine ⟨_, (Derives.array isOpen list isClose).loosen _ (by decide), makes_array makes, ?_⟩
    show opening.kind ≠ _ ∧ opening.kind ≠ _
    simp [isOpen]

/-- The text of data is a program of one expression. -/
theorem Store.Data.readProgram (data : s.Data v) : ∃ location e p, e.Makes s v ∧
    Session.readProgram (s.inspect v) = .ok p ∧ p.statements = [.expression location e] := by
  obtain ⟨diagnostics, e, derives, makes, noBlock, noWord⟩ := (data.phrase [] .nil).source
  have whole := derives.loosen .expression (by decide)
  obtain ⟨t, xs, tokens⟩ := List.exists_cons_of_ne_nil whole.expr_ne_nil
  rw [tokens] at whole noBlock noWord
  have statement : Derives (.statement (firstKind [] .endOfInput)) (t :: (xs ++ [])) _ :=
    .expression whole noBlock (fun isWord => absurd isWord noWord) (.omitted (.inr rfl))
  have program : _ ∧ (Program.ofTokens _ (Source.ofText (s.inspect v)).finish).2 = [] :=
    (statement.andThen .done).ofTokens
  rw [List.append_nil, List.append_nil, ← tokens] at program
  refine ⟨t.location, e, _, makes, ?_, program.1⟩
  unfold Session.readProgram
  simp only [diagnostics, ne_eq, not_true_eq_false, if_false, program.2]

theorem execAll_expression {context : Context} {location : Location} {st st' : State}
    (run : eval n context.inside e st = .done w st') :
    execAll (n + 2) context none [.expression location e] st = .done (.normal (some w)) st' := by
  have statement : exec (n + 1) context (.expression location e) st = .done (.normal (some w)) st' := by
    rw [exec, Run.bind_apply, run]
    rfl
  rw [execAll, Run.bind_apply, statement]
  rfl

/-- The text that shows a value which is made of null, booleans, texts and finite numbers that are zero or normal, in
arrays that do not hold themselves, can be run in any session. It ends without a complaint, prints nothing, and its
value is the same data, but a zero has no sign then. -/
theorem Store.Data.reads_back (data : s.Data v) : ∃ steps, ∀ (session : Session) (filename : Text), ∃ w report,
    (∀ n ≥ steps, session.run n (s.inspect v) filename = some report) ∧ report.ending = .finished (some w) ∧
      report.printed = [] ∧ SameData s report.session.store v w := by
  obtain ⟨location, e, p, makes, reads, only⟩ := data.readProgram
  refine ⟨sizeOf e + 2, fun session filename => ?_⟩
  let named : Session := { session with filenames := session.filenames.insert filename }
  let begins := named.begins p
  obtain ⟨w, st, run, untouched, same⟩ := makes (sizeOf e) le_rfl begins.context.inside begins.state
  refine ⟨w, ⟨.finished (some w), st.printed.toList.flatten, { named with store := st.store, latest := st.latest }⟩,
    fun n enough => ?_, rfl, ?_, same⟩
  · obtain ⟨n, rfl⟩ : ∃ k, n = k + 2 := ⟨n - 2, by omega⟩
    have ended : eval n begins.context.inside e begins.state = .done w st := by
      rw [← run]
      exact Run.Below.eval (by omega) _ _ _ (by rw [run]; nofun)
    have whole : begins.run (n + 2) = .done (.normal (some w)) st := by
      show execAll (n + 2) begins.context none p.statements begins.state = _
      rw [only]
      exact execAll_expression ended
    rw [Session.run, reads]
    show Session.interpret (n + 2) named p = _
    rw [Session.interpret_eq, whole]
    rfl
  · show st.printed.toList.flatten = []
    rw [untouched.printed]
    rfl

/-- An array that holds another one twice, with a number below zero and a text that needs quotes. -/
def Store.twice : Store := { Store.empty with
  arrays := #[#[.number (-2.5), .null, .boolean true], #[.array 0, .string ("a\"b" : Text).packed, .array 0]] }

theorem Store.Data.reads_back_twice : Store.twice.Data (.array 1) ∧
    Store.twice.inspect (.array 1) = "[[-2.5, null, true], \"a\\\"b\", [-2.5, null, true]]" ∧
    ∃ steps w report, (∀ n ≥ steps, (Session.start 100 0).run n (Store.twice.inspect (.array 1)) "echo" = some report) ∧
      report.ending = .finished (some w) ∧ SameData Store.twice report.session.store (.array 1) w := by
  have exact : Exact.ofFloat (-2.5) = .finite true 5629499534213120 (-51) := by decide +kernel
  have normal : ZeroOrNormal (-2.5) := by
    unfold ZeroOrNormal
    rw [exact]
    have power : (2 : ℚ) ^ (-1022 : Int) ≤ 2 ^ (-51 : Int) := zpow_le_zpow_right₀ (by norm_num) (by decide)
    exact .inr (power.trans (le_mul_of_one_le_left (by positivity) (by norm_num)))
  have inner : Store.twice.Data (.array 0) := by
    refine .array fun v mem => ?_
    have mem : v ∈ [.number (-2.5), .null, .boolean true] := Array.mem_toList_iff.2 mem
    simp only [List.mem_cons, List.not_mem_nil, or_false] at mem
    rcases mem with rfl | rfl | rfl
    · exact .number (by decide +kernel) normal
    · exact .null
    · exact .boolean true
  have data : Store.twice.Data (.array 1) := by
    refine .array fun v mem => ?_
    have mem : v ∈ [.array 0, .string ("a\"b" : Text).packed, .array 0] := Array.mem_toList_iff.2 mem
    simp only [List.mem_cons, List.not_mem_nil, or_false] at mem
    rcases mem with rfl | rfl | rfl
    · exact inner
    · exact .string _
    · exact inner
  obtain ⟨steps, reads⟩ := data.reads_back
  obtain ⟨w, report, run, ending, -, same⟩ := reads (Session.start 100 0) "echo"
  exact ⟨data, by decide +kernel, steps, w, report, run, ending, same⟩

end TinyScript
