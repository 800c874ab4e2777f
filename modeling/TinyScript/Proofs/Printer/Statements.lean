import TinyScript.Proofs.Printer.Expressions

namespace TinyScript

open Grammar

variable {rest : Text} {xs ys : List Token} {s : Stmt} {body : List Stmt}

/-- The tokens are a statement like this one. Behind a statement to which an `else` could belong there is none. -/
def Stmt.ReadsBack (s : Stmt) (xs : List Token) : Prop :=
  ∃ s', s'.placeless = s.placeless ∧ ∀ next, (s.endsOpen → next ≠ .elseWord) → Derives (.statement next) xs s'

def Stmt.Legible (s : Stmt) : Prop := ∀ rest, Phrase s.text s.ReadsBack rest

/-- The tokens are statements like these. -/
def BodyReadsBack (body : List Stmt) (xs : List Token) : Prop :=
  ∃ body', Stmt.allPlaceless body' = Stmt.allPlaceless body ∧
    ∀ next, next ≠ .elseWord → Derives (.statements next) xs body'

/-- The tokens are a function like this one, and its name, if it has one, stands behind the word. -/
def FunctionLiteral.ReadsBack (f : FunctionLiteral) (xs : List Token) : Prop :=
  ∃ f', f'.placeless = f.placeless ∧ Derives .function xs f' ∧ (f.name ≠ [] → kindAt xs.tail = .identifier)

def FunctionLiteral.Legible (f : FunctionLiteral) : Prop := ∀ rest, Phrase f.text f.ReadsBack rest

/-- No statement begins with an `else`. -/
theorem Stmt.ReadsBack.first (reads : s.ReadsBack xs) : xs ≠ [] ∧ kindAt xs ≠ .elseWord := by
  obtain ⟨s', _, derives⟩ := reads
  have derives := derives .semicolon (by simp)
  refine ⟨derives.statement_ne_nil, fun isElse => ?_⟩
  have begins := derives.begins
  rw [Begins, isElse] at begins
  simp [StatementMark, Token.Kind.beginsExpression] at begins

theorem Stmt.texts_eq (body : List Stmt) : Stmt.texts body = body.map Stmt.text := by
  induction body with
  | nil => rfl
  | cons s body ih => rw [Stmt.texts, ih, List.map_cons]

theorem allPlaceless_cons (s : Stmt) (body : List Stmt) :
    Stmt.allPlaceless (s :: body) = s.placeless :: Stmt.allPlaceless body := rfl

/-- Statements behind a first one. -/
theorem bodyReadsBack_cons (first : s.ReadsBack xs) (behind : Behind Nothing Stmt.ReadsBack body ys) :
    BodyReadsBack (s :: body) (xs ++ ys) := by
  induction body generalizing s xs ys with
  | nil =>
    obtain rfl : ys = [] := behind
    obtain ⟨s', same, derives⟩ := first
    refine ⟨[s'], ?_, fun next noElse => ?_⟩
    · rw [allPlaceless_cons, allPlaceless_cons, same]
    · have last : Derives (.statement (firstKind [] next)) xs s' := derives next fun _ => noElse
      exact last.andThen .done
  | cons t body ih =>
    obtain ⟨_, _, rfl, rfl, us, vs, rfl, second, others⟩ := behind
    have second_first := second.first
    obtain ⟨body', all, statements⟩ := ih second others
    obtain ⟨s', same, derives⟩ := first
    refine ⟨s' :: body', ?_, fun next noElse => ?_⟩
    · rw [allPlaceless_cons, allPlaceless_cons, same, all]
    · have following : firstKind (us ++ vs) next ≠ .elseWord := by
        obtain ⟨u, us, rfl⟩ := List.exists_cons_of_ne_nil second_first.1
        exact second_first.2
      exact (derives _ fun _ => following).andThen (statements next noElse)

theorem phrase_body (legible : ∀ s ∈ body, s.Legible) (rest : Text) (clear : Clear rest) :
    Phrase (Text.join " " (Stmt.texts body)) (BodyReadsBack body) rest := by
  rw [Stmt.texts_eq]
  refine (Phrase.join (fun s mem rest _ => legible s mem rest) (fun _ => .blank) clear_space clear).mono
    fun xs joined => ?_
  cases body with
  | nil =>
    obtain rfl : xs = [] := joined
    exact ⟨[], rfl, fun _ _ => .done⟩
  | cons s body =>
    obtain ⟨ys, zs, rfl, first, behind⟩ := joined
    exact bodyReadsBack_cons first behind

/-- The tokens are statements like these between braces. -/
def BlockReadsBack (body : List Stmt) (xs : List Token) : Prop :=
  ∃ brace ys last, xs = brace :: (ys ++ [last]) ∧ brace.kind = .leftBrace ∧ last.kind = .rightBrace ∧
    BodyReadsBack body ys

theorem phrase_block (legible : ∀ s ∈ body, s.Legible) (rest : Text) :
    Phrase (braced (Stmt.texts body)) (BlockReadsBack body) rest := by
  unfold braced
  split
  · next none =>
    obtain rfl : body = [] := by
      cases body with
      | nil => rfl
      | cons s body => cases none
    refine Phrase.mono ((Phrase.leftBrace _).append (.rightBrace rest)) ?_
    rintro _ ⟨_, _, rfl, ⟨brace, rfl, isOpen, _⟩, last, rfl, isClose, _⟩
    exact ⟨brace, [], last, rfl, isOpen, isClose, [], rfl, fun _ _ => .done⟩
  · have inside := phrase_body legible (" \x7d" ++ rest) (.cons (by decide))
    refine (((Phrase.leftBrace _).space.append inside).append (Phrase.rightBrace rest).indent).mono ?_
    rintro _ ⟨_, _, rfl, ⟨_, ys, rfl, ⟨brace, rfl, isOpen, _⟩, reads⟩, last, rfl, isClose, _⟩
    exact ⟨brace, ys, last, rfl, isOpen, isClose, reads⟩

theorem derives_moreParameters {names : List Text} (behind : Behind (One .comma ",") (One .identifier) names xs) :
    MoreParameters xs names := by
  induction names generalizing xs with
  | nil =>
    obtain rfl : xs = [] := behind
    exact .done
  | cons name names ih =>
    obtain ⟨_, _, rfl, ⟨comma, rfl, isComma, _⟩, _, zs, rfl, ⟨t, rfl, isName, rfl⟩, others⟩ := behind
    exact .more isComma isName (ih others)

theorem phrase_parameters {names : List Text} (isName : ∀ name ∈ names, IsName name) (rest : Text)
    (clear : Clear rest) : Phrase (Text.join ", " names) (fun xs => Parameters xs names) rest := by
  have joined := Phrase.join (fun name mem _ => Phrase.name (isName name mem)) .comma clear_comma clear
  rw [List.map_id'] at joined
  refine joined.mono fun xs joined => ?_
  cases names with
  | nil =>
    obtain rfl : xs = [] := joined
    exact .empty
  | cons name names =>
    obtain ⟨_, zs, rfl, ⟨t, rfl, isIdentifier, rfl⟩, behind⟩ := joined
    exact .names isIdentifier (derives_moreParameters behind)

theorem phrase_functionName {name : Text} (isName : name ≠ [] → IsName name) (clear : Clear rest) :
    Phrase name (fun xs => Name xs name ∧ (name ≠ [] → kindAt xs = .identifier)) rest := by
  by_cases missing : name = []
  · subst missing
    refine Phrase.nil.mono ?_
    rintro _ rfl
    exact ⟨.missing, fun some => absurd rfl some⟩
  · refine (Phrase.name (isName missing) clear).mono ?_
    rintro _ ⟨t, rfl, isIdentifier, rfl⟩
    exact ⟨.given isIdentifier, fun _ => isIdentifier⟩

theorem legible_function {location bodyLocation : Location} {name : Text} {parameters : List Text}
    (isName : name ≠ [] → IsName name) (names : ∀ p ∈ parameters, IsName p) (legible : ∀ s ∈ body, s.Legible) :
    (FunctionLiteral.mk location name parameters bodyLocation body).Legible := by
  intro rest
  have word {rest : Text} : Phrase "function " (One .functionWord "function") rest :=
    Phrase.keyword (w := "function") (by decide) (by decide)
  have inside := phrase_block legible rest
  have listed := phrase_parameters names (") " ++ (braced (Stmt.texts body) ++ rest)) (.cons (by decide))
  have called := phrase_functionName isName
    (clear_opening (Text.join ", " parameters ++ (") " ++ (braced (Stmt.texts body) ++ rest))))
  refine (((((word.append called).append (.leftParen _)).append listed).append (.closing _)).append inside).mono ?_
  rintro _ ⟨_, _, rfl, ⟨_, _, rfl, ⟨_, ps, rfl, ⟨_, _, rfl, ⟨_, ns, rfl, ⟨word, rfl, isWord, _⟩, isName, first⟩,
    opening, rfl, isOpen, _⟩, names⟩, closing, rfl, isClose, _⟩, brace, zs, last, rfl, begins, ends,
    body', all, derives⟩
  have function : Derives .function (word :: (ns ++ opening :: (ps ++ closing :: brace :: (zs ++ [last])))) _ :=
    .function isWord isName isOpen names isClose begins (derives _ (by simp)) ends
  refine ⟨⟨word.location, name, parameters, brace.location, body'⟩, ?_, ?_, fun some => ?_⟩
  · rw [FunctionLiteral.placeless, FunctionLiteral.placeless, all]
  · simpa using function
  · have named := first some
    have token : ns ≠ [] := by
      rintro rfl
      cases named
    simpa [kindAt_append token] using named

/-- A function literal is always in parentheses. -/
theorem legible_lambda {literal : FunctionLiteral} (legible : literal.Legible) :
    (Expr.function literal).Legible := by
  refine .parenthesized rfl fun rest => (legible (")" ++ rest)).mono ?_
  rintro xs ⟨f', same, derives, _⟩
  exact ⟨.function f', (Derives.lambda derives).loosen _ (by decide), congrArg Expr.function same⟩

theorem legible_var {location : Location} {name : Text} {value : Option Expr} (isName : IsName name)
    (legible : ∀ e ∈ value, e.Legible) : (Stmt.var location name value).Legible := by
  intro rest
  have word {rest : Text} : Phrase "var " (One .varWord "var") rest :=
    Phrase.keyword (w := "var") (by decide) (by decide)
  cases value with
  | none =>
    have named : Phrase name (One .identifier name) ([] ++ ((";" : Text) ++ rest)) :=
      .name isName (.cons (by decide))
    refine (((word.append named).append .nil).append (.semicolon rest)).mono ?_
    rintro _ ⟨_, _, rfl, ⟨_, _, rfl, ⟨_, _, rfl, ⟨word, rfl, isWord, _⟩, t, rfl, isIdentifier, spelled⟩, rfl⟩, last,
      rfl, isEnd, _⟩
    refine ⟨_, ?_, fun _ _ => .var (.declared isWord isIdentifier) (.semicolon isEnd)⟩
    rw [Stmt.placeless, Stmt.placeless, spelled]
  | some e =>
    have named : Phrase name (One .identifier name) ((" = " : Text) ++ e.text ++ (";" ++ rest)) :=
      .name isName (.cons (by decide))
    have inside := (legible e rfl).phrase (";" ++ rest) (.cons (by decide))
    refine (((word.append named).append ((Phrase.equals _).append inside)).append (.semicolon rest)).mono ?_
    rintro _ ⟨_, _, rfl, ⟨_, _, rfl, ⟨_, _, rfl, ⟨word, rfl, isWord, _⟩, t, rfl, isIdentifier, spelled⟩, _, ys, rfl,
      ⟨equals, rfl, isEquals, _⟩, reads⟩, last, rfl, isEnd, _⟩
    obtain ⟨e', derives, same⟩ := reads.inside
    refine ⟨_, ?_, fun _ _ => .var (.initialized isWord isIdentifier isEquals derives) (.semicolon isEnd)⟩
    rw [Stmt.placeless, Stmt.placeless, Expr.optionPlaceless, Expr.optionPlaceless, same, spelled]

theorem legible_declaration {literal : FunctionLiteral} (named : literal.name ≠ []) (legible : literal.Legible) :
    (Stmt.function literal).Legible := by
  refine fun rest => (legible rest).mono ?_
  rintro xs ⟨f', same, derives, first⟩
  have isName := first named
  have some : xs ≠ [] := by
    rintro rfl
    cases derives.begins
  obtain ⟨word, ys, rfl⟩ := List.exists_cons_of_ne_nil some
  obtain ⟨name, zs, rfl⟩ := List.exists_cons_of_ne_nil derives.goesOn
  exact ⟨.function f', congrArg Stmt.function same, fun _ _ => .functionDeclaration derives isName⟩

theorem legible_expression {location : Location} {e : Expr} (legible : e.Legible) :
    (Stmt.expression location e).Legible := by
  intro rest
  have inside := legible.phrase (";" ++ rest) (.cons (by decide))
  refine (inside.append (.semicolon rest)).mono ?_
  rintro _ ⟨xs, _, rfl, ⟨e', derives, same, noBlock, noWord⟩, last, rfl, isEnd, _⟩
  have whole := derives.loosen .expression (by decide)
  obtain ⟨t, ys, rfl⟩ := List.exists_cons_of_ne_nil whole.expr_ne_nil
  refine ⟨.expression t.location e', ?_, fun _ _ => ?_⟩
  · rw [Stmt.placeless, Stmt.placeless, same]
  · exact .expression whole noBlock (fun isWord => absurd isWord noWord) (.semicolon isEnd)

theorem legible_returns {location : Location} {value : Option Expr} (legible : ∀ e ∈ value, e.Legible) :
    (Stmt.returns location value).Legible := by
  intro rest
  cases value with
  | none =>
    have word : Phrase "return" (One .returnWord "return") ([] ++ ((";" : Text) ++ rest)) :=
      Phrase.word (w := "return") (by decide) (.cons (by decide))
    refine ((word.append .nil).append (.semicolon rest)).mono ?_
    rintro _ ⟨_, _, rfl, ⟨_, _, rfl, ⟨word, rfl, isWord, _⟩, rfl⟩, last, rfl, isEnd, _⟩
    exact ⟨.returns word.location none, rfl, fun _ _ => .returnNull isWord (.semicolon isEnd)⟩
  | some e =>
    have word : Phrase "return" (One .returnWord "return") ((" " : Text) ++ e.text ++ (";" ++ rest)) :=
      Phrase.word (w := "return") (by decide) (.cons (by decide))
    have inside := (legible e rfl).phrase (";" ++ rest) (.cons (by decide))
    refine ((word.append inside.indent).append (.semicolon rest)).mono ?_
    rintro _ ⟨_, _, rfl, ⟨_, ys, rfl, ⟨word, rfl, isWord, _⟩, reads⟩, last, rfl, isEnd, _⟩
    obtain ⟨e', derives, same⟩ := reads.inside
    refine ⟨.returns word.location (some e'), ?_, fun next _ => ?_⟩
    · rw [Stmt.placeless, Stmt.placeless, Expr.optionPlaceless, Expr.optionPlaceless, same]
    · rw [List.append_assoc]
      have statement : Derives (.statement next) (word :: (ys ++ [last])) _ :=
        .returnValue isWord derives (.semicolon isEnd)
      exact statement

theorem legible_block {location : Location} (legible : ∀ s ∈ body, s.Legible) :
    (Stmt.block location body).Legible := by
  refine fun rest => (phrase_block legible rest).mono ?_
  rintro _ ⟨brace, ys, last, rfl, isOpen, isClose, body', all, derives⟩
  refine ⟨.block brace.location body', ?_, fun _ _ => .block isOpen (derives _ (by simp)) isClose⟩
  rw [Stmt.placeless, Stmt.placeless, all]

/-- The tokens are a word and a condition like this one in parentheses. -/
def ConditionReadsBack (kind : Token.Kind) (c : Expr) (xs : List Token) : Prop :=
  ∃ word opening ys closing c', xs = word :: opening :: (ys ++ [closing]) ∧ word.kind = kind ∧
    opening.kind = .leftParen ∧ Derives (.expr .expression) ys c' ∧ closing.kind = .rightParen ∧
    c'.placeless = c.placeless

theorem phrase_condition {w : Text} {kind : Token.Kind} {c : Expr} (isWord : IsWord w)
    (reserved : Token.Kind.ofWord w = kind) (legible : c.Legible) (rest : Text) :
    Phrase (w ++ " " ++ "(" ++ c.text ++ ") ") (ConditionReadsBack kind c) rest := by
  have inside := legible.phrase (") " ++ rest) (.cons (by decide))
  refine ((((Phrase.keyword isWord reserved).append (.leftParen _)).append inside).append (.closing rest)).mono ?_
  rintro _ ⟨_, _, rfl, ⟨_, ys, rfl, ⟨_, _, rfl, ⟨word, rfl, isKind, _⟩, opening, rfl, isOpen, _⟩, reads⟩,
    closing, rfl,
    isClose, _⟩
  obtain ⟨c', derives, same⟩ := reads.inside
  exact ⟨word, opening, ys, closing, c', rfl, isKind, isOpen, derives, isClose, same⟩

theorem legible_whileLoop {location : Location} {c : Expr} (test : c.Legible) (legible : s.Legible) :
    (Stmt.whileLoop location c s).Legible := by
  intro rest
  have condition : Phrase ("while (" ++ c.text ++ ") ") (ConditionReadsBack .whileWord c) (s.text ++ rest) :=
    phrase_condition (w := "while") (by decide) (by decide) test _
  refine (condition.append (legible rest)).mono ?_
  rintro _ ⟨_, zs, rfl, ⟨word, opening, ys, closing, c', rfl, isWord, isOpen, derives, isClose, same⟩, s', same',
    statement⟩
  refine ⟨.whileLoop word.location c' s', ?_, fun next noElse => ?_⟩
  · rw [Stmt.placeless, Stmt.placeless, same, same']
  · have loop := Derives.whileLoop isWord isOpen derives isClose (statement next noElse)
    simpa using loop

theorem legible_ifOnly {location : Location} {c : Expr} (test : c.Legible) (legible : s.Legible) :
    (Stmt.ifElse location c s none).Legible := by
  intro rest
  have condition : Phrase ("if (" ++ c.text ++ ") ") (ConditionReadsBack .ifWord c) (s.text ++ ([] ++ rest)) :=
    phrase_condition (w := "if") (by decide) (by decide) test _
  refine ((condition.append (legible ([] ++ rest))).append .nil).mono ?_
  rintro _ ⟨_, _, rfl, ⟨_, zs, rfl,
    ⟨word, opening, ys, closing, c', rfl, isWord, isOpen, derives, isClose, same⟩, s',
    same', statement⟩, rfl⟩
  refine ⟨.ifElse word.location c' s' none, ?_, fun next noElse => ?_⟩
  · rw [Stmt.placeless, Stmt.placeless, same, same']
  · have noElse := noElse rfl
    have branch := Derives.ifOnly isWord isOpen derives isClose (statement next fun _ => noElse) noElse
    simpa using branch

theorem legible_ifElse {location : Location} {c : Expr} {alternative : Stmt} (test : c.Legible) (legible : s.Legible)
    (closed : s.endsOpen = false) (other : alternative.Legible) :
    (Stmt.ifElse location c s (some alternative)).Legible := by
  intro rest
  have condition : Phrase ("if (" ++ c.text ++ ") ") (ConditionReadsBack .ifWord c)
      (s.text ++ (" else " ++ alternative.text ++ rest)) :=
    phrase_condition (w := "if") (by decide) (by decide) test _
  have word : Phrase " else " (One .elseWord "else") (alternative.text ++ rest) :=
    (Phrase.keyword (w := "else") (by decide) (by decide)).indent
  refine ((condition.append (legible _)).append (word.append (other rest))).mono ?_
  rintro _ ⟨_, _, rfl, ⟨_, zs, rfl,
    ⟨word, opening, ys, closing, c', rfl, isWord, isOpen, derives, isClose, same⟩, s',
    same', statement⟩, _, us, rfl, ⟨elseWord, rfl, isElse, _⟩, a', same'', branch⟩
  refine ⟨.ifElse word.location c' s' (some a'), ?_, fun next noElse => ?_⟩
  · rw [Stmt.placeless, Stmt.placeless, Stmt.optionPlaceless, Stmt.optionPlaceless, same, same', same'']
  · have consequence := statement .elseWord fun ends => by simp [closed] at ends
    have both := Derives.ifElse isWord isOpen derives isClose consequence isElse (branch next noElse)
    simpa using both

def TreeNode.Legible : TreeNode → Prop
  | expr e => e.Legible
  | stmt s => s.Legible
  | function literal => literal.Legible

theorem mem_allNumbers {es : List Expr} {e : Expr} {v : Float} (inside : e ∈ es) (mem : v ∈ e.numbers) :
    v ∈ Expr.allNumbers es := by
  induction es with
  | nil => cases inside
  | cons first es ih =>
    rw [Expr.allNumbers, List.mem_append]
    rcases List.mem_cons.1 inside with rfl | inside
    · exact .inl mem
    · exact .inr (ih inside)

theorem mem_pairsNumbers {ps : List (Text × Expr)} {p : Text × Expr} {v : Float} (inside : p ∈ ps)
    (mem : v ∈ p.2.numbers) : v ∈ Expr.pairsNumbers ps := by
  induction ps with
  | nil => cases inside
  | cons first ps ih =>
    rw [Expr.pairsNumbers, List.mem_append]
    rcases List.mem_cons.1 inside with rfl | inside
    · exact .inl mem
    · exact .inr (ih inside)

theorem mem_bodyNumbers {body : List Stmt} {s : Stmt} {v : Float} (inside : s ∈ body) (mem : v ∈ s.numbers) :
    v ∈ Stmt.allNumbers body := by
  induction body with
  | nil => cases inside
  | cons first body ih =>
    rw [Stmt.allNumbers, List.mem_append]
    rcases List.mem_cons.1 inside with rfl | inside
    · exact .inl mem
    · exact .inr (ih inside)

theorem mem_optionNumbers {value : Option Expr} {e : Expr} {v : Float} (inside : e ∈ value) (mem : v ∈ e.numbers) :
    v ∈ Expr.optionNumbers value := by
  cases inside
  exact mem

/-- Every tree that can be written is read back, if its numbers are zero or normal. -/
theorem Written.legible {node : TreeNode} (written : Written node)
    (normal : ∀ v ∈ node.numbers, ZeroOrNormal v) : node.Legible := by
  induction written with
  | identifier isName => exact legible_identifier isName
  | number finite => exact legible_number finite (normal _ List.mem_cons_self)
  | string => exact legible_string
  | boolean => exact legible_boolean
  | null => exact legible_null
  | array _ ih => exact legible_array fun e inside => ih e inside fun v mem => normal v (mem_allNumbers inside mem)
  | object _ ih =>
    exact legible_object fun p inside => ih p inside fun v mem => normal v (mem_pairsNumbers inside mem)
  | lambda _ ih => exact legible_lambda (ih normal)
  | assign isName _ ih => exact legible_assign isName (ih normal)
  | unary _ ih => exact legible_unary (ih normal)
  | binary _ _ first second =>
    have left := first fun v mem => normal v (List.mem_append_left _ mem)
    have right := second fun v mem => normal v (List.mem_append_right _ mem)
    exact legible_of_joins rfl (phrase_binary _) (fun _ _ _ same same' => by simp [Expr.placeless, same, same'])
      left right
  | logical _ _ first second =>
    have left := first fun v mem => normal v (List.mem_append_left _ mem)
    have right := second fun v mem => normal v (List.mem_append_right _ mem)
    exact legible_of_joins rfl (phrase_logical _)
      (fun _ _ _ same same' => by simp [Expr.placeless, same, same']) left right
  | call _ _ first others =>
    have callee := first fun v mem => normal v (List.mem_append_left _ mem)
    exact legible_call callee fun e inside => others e inside fun v mem =>
      normal v (List.mem_append_right _ (mem_allNumbers inside mem))
  | index _ _ first second =>
    have left := first fun v mem => normal v (List.mem_append_left _ mem)
    have index := second fun v mem => normal v (List.mem_append_right _ mem)
    exact legible_index left index
  | var isName _ ih =>
    exact legible_var isName fun e inside => ih e inside fun v mem => normal v (mem_optionNumbers inside mem)
  | declaration named _ ih => exact legible_declaration named (ih normal)
  | expression _ ih => exact legible_expression (ih normal)
  | returns _ ih =>
    exact legible_returns fun e inside => ih e inside fun v mem => normal v (mem_optionNumbers inside mem)
  | block _ ih => exact legible_block fun s inside => ih s inside fun v mem => normal v (mem_bodyNumbers inside mem)
  | ifOnly _ _ test consequence =>
    have condition := test fun v mem => normal v (List.mem_append_left _ (List.mem_append_left _ mem))
    have body := consequence fun v mem => normal v (List.mem_append_left _ (List.mem_append_right _ mem))
    exact legible_ifOnly condition body
  | ifElse _ _ closed _ test consequence alternative =>
    have condition := test fun v mem => normal v (List.mem_append_left _ (List.mem_append_left _ mem))
    have body := consequence fun v mem => normal v (List.mem_append_left _ (List.mem_append_right _ mem))
    have other := alternative fun v mem => normal v (List.mem_append_right _ mem)
    exact legible_ifElse condition body closed other
  | whileLoop _ _ test inside =>
    have condition := test fun v mem => normal v (List.mem_append_left _ mem)
    have body := inside fun v mem => normal v (List.mem_append_right _ mem)
    exact legible_whileLoop condition body
  | function isName names _ ih =>
    exact legible_function isName names fun s inside => ih s inside fun v mem =>
      normal v (mem_bodyNumbers inside mem)

end TinyScript
