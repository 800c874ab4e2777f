import TinyScript.Proofs.Grammar.Shape
import TinyScript.Proofs.Printer.Tree

namespace TinyScript

open Grammar

variable {rest : Text} {e left right : Expr}

/-- The tokens are an expression like this one, which can stand in any place of an expression. A statement does not
take them for a block or a declaration. -/
def Expr.ReadsBack (e : Expr) (xs : List Token) : Prop :=
  ∃ e', Derives (.expr .suffixed) xs e' ∧ e'.placeless = e.placeless ∧ kindAt xs ≠ .leftBrace ∧
    kindAt xs ≠ .functionWord

/-- The tokens are an expression like this one inside of parentheses. -/
def Expr.ReadsBackInside (e : Expr) (xs : List Token) : Prop :=
  ∃ e', Derives (.expr .expression) xs e' ∧ e'.placeless = e.placeless

/-- The expression is read back wherever it is written. -/
structure Expr.Legible (e : Expr) : Prop where
  /-- A sign in front does not make a longer mark with the text. -/
  begins : ∃ b tail, e.text = b :: tail ∧ b ≠ ascii '='
  phrase : ∀ rest, Clear rest → Phrase e.text e.ReadsBack rest

theorem Expr.ReadsBack.inside {xs : List Token} (reads : e.ReadsBack xs) : e.ReadsBackInside xs := by
  obtain ⟨e', derives, same, _⟩ := reads
  exact ⟨e', derives.loosen _ (by decide), same⟩

/-- Between parentheses every expression can stand. -/
theorem Expr.Legible.parenthesized {t : Text} (text : e.text = TinyScript.parenthesized t)
    (inside : ∀ rest, Phrase t e.ReadsBackInside (")" ++ rest)) : e.Legible := by
  refine ⟨⟨ascii '(', t ++ ")", text, by decide⟩, fun rest _ => ?_⟩
  rw [text]
  refine (((Phrase.leftParen _).append (inside rest)).append (.rightParen rest)).mono ?_
  rintro _ ⟨_, _, rfl, ⟨_, xs, rfl, ⟨opening, rfl, isOpen, _⟩, e', derives, same⟩, closing, rfl, isClose, _⟩
  refine ⟨e', (Derives.group isOpen derives isClose).loosen _ (by decide), same, ?_⟩
  show opening.kind ≠ _ ∧ opening.kind ≠ _
  simp [isOpen]

theorem Expr.texts_eq (es : List Expr) : Expr.texts es = es.map Expr.text := by
  induction es with
  | nil => rfl
  | cons e es ih => rw [Expr.texts, ih, List.map_cons]

theorem Expr.pairTexts_eq (ps : List (Text × Expr)) :
    Expr.pairTexts ps = ps.map fun p => Quoted.write p.1 ++ ": " ++ p.2.text := by
  induction ps with
  | nil => rfl
  | cons p ps ih => rw [Expr.pairTexts, ih, List.map_cons]

theorem clear_comma (rest : Text) : Clear (", " ++ rest) := .cons (by decide)

section Lists

variable {ι : Type} {P : ι → List Token → Prop} {R : ι → Expr → Prop} {items : List ι} {xs : List Token}

/-- Items behind commas are a list of expressions when each of them is an expression. -/
theorem derives_more (each : ∀ i xs, P i xs → ∃ e, Derives (.expr .expression) xs e ∧ R i e)
    (behind : Behind (One .comma ",") P items xs) : ∃ es, Derives .more xs es ∧ List.Forall₂ R items es := by
  induction items generalizing xs with
  | nil =>
    obtain rfl : xs = [] := behind
    exact ⟨[], .moreNil, .nil⟩
  | cons i items ih =>
    obtain ⟨_, _, rfl, ⟨t, rfl, isComma, _⟩, ys, zs, rfl, reads, others⟩ := behind
    obtain ⟨e, derives, like⟩ := each i ys reads
    obtain ⟨es, more, all⟩ := ih others
    exact ⟨e :: es, (.moreCons isComma derives more : Derives .more (t :: (ys ++ zs)) _), .cons like all⟩

theorem derives_list (each : ∀ i xs, P i xs → ∃ e, Derives (.expr .expression) xs e ∧ R i e)
    (joined : Joined (One .comma ",") P items xs) : ∃ es, Derives .list xs es ∧ List.Forall₂ R items es := by
  cases items with
  | nil =>
    obtain rfl : xs = [] := joined
    exact ⟨[], .listNil, .nil⟩
  | cons i items =>
    obtain ⟨ys, zs, rfl, reads, others⟩ := joined
    obtain ⟨e, derives, like⟩ := each i ys reads
    obtain ⟨es, more, all⟩ := derives_more each others
    exact ⟨e :: es, .listCons derives more, .cons like all⟩

end Lists

theorem allPlaceless_eq {es es' : List Expr} (same : List.Forall₂ (fun e e' => e'.placeless = e.placeless) es es') :
    Expr.allPlaceless es' = Expr.allPlaceless es := by
  induction same with
  | nil => rfl
  | cons same _ ih => rw [Expr.allPlaceless, Expr.allPlaceless, same, ih]

theorem phrase_list {es : List Expr} (legible : ∀ e ∈ es, e.Legible) (rest : Text) (clear : Clear rest) :
    Phrase (Text.join ", " (Expr.texts es))
      (fun xs => ∃ es', Derives .list xs es' ∧ Expr.allPlaceless es' = Expr.allPlaceless es) rest := by
  rw [Expr.texts_eq]
  refine (Phrase.join (fun e mem => (legible e mem).phrase) .comma clear_comma clear).mono fun xs joined => ?_
  obtain ⟨es', derives, same⟩ := derives_list (fun _ _ reads => Expr.ReadsBack.inside reads) joined
  exact ⟨es', derives, allPlaceless_eq same⟩

theorem pairsPlaceless_cons (p : Text × Expr) (ps : List (Text × Expr)) :
    Expr.pairsPlaceless (p :: ps) = (p.1, p.2.placeless) :: Expr.pairsPlaceless ps := rfl

/-- The tokens are a property like this one. -/
def PairReadsBack (p : Text × Expr) (xs : List Token) : Prop :=
  ∃ key colon ys, xs = key :: colon :: ys ∧ key.kind = .string p.1 ∧ colon.kind = .colon ∧ p.2.ReadsBackInside ys

theorem phrase_pair {p : Text × Expr} (legible : p.2.Legible) (rest : Text) (clear : Clear rest) :
    Phrase (Quoted.write p.1 ++ ": " ++ p.2.text) (PairReadsBack p) rest := by
  refine (((Phrase.string p.1 _).append (.colon _)).append (legible.phrase rest clear)).mono ?_
  rintro _ ⟨_, xs, rfl, ⟨_, _, rfl, ⟨key, rfl, isKey, _⟩, t, rfl, isColon, _⟩, reads⟩
  exact ⟨key, t, xs, rfl, isKey, isColon, reads.inside⟩

/-- Properties of which each but the first stands behind a comma. -/
theorem derives_pairs {p : Text × Expr} {ps : List (Text × Expr)} {xs ys : List Token} (first : PairReadsBack p xs)
    (behind : Behind (One .comma ",") PairReadsBack ps ys) :
    ∃ ps', Derives .pairs (xs ++ ys) ps' ∧ Expr.pairsPlaceless ps' = Expr.pairsPlaceless (p :: ps) := by
  induction ps generalizing p xs ys with
  | nil =>
    obtain rfl : ys = [] := behind
    obtain ⟨key, colon, zs, rfl, isKey, isColon, e', derives, same⟩ := first
    refine ⟨[(p.1, e')], ?_, ?_⟩
    · rw [List.append_nil]
      exact .pairsLast (.string isKey) isColon derives
    · rw [pairsPlaceless_cons, pairsPlaceless_cons, same]
  | cons next ps ih =>
    obtain ⟨_, _, rfl, ⟨comma, rfl, isComma, _⟩, us, vs, rfl, second, others⟩ := behind
    obtain ⟨ps', more, all⟩ := ih second others
    obtain ⟨key, colon, zs, rfl, isKey, isColon, e', derives, same⟩ := first
    refine ⟨(p.1, e') :: ps', ?_, ?_⟩
    · exact .pairsCons (.string isKey) isColon derives isComma more
    · rw [pairsPlaceless_cons, pairsPlaceless_cons, same, all]

theorem phrase_pairs {ps : List (Text × Expr)} (legible : ∀ p ∈ ps, p.2.Legible) (rest : Text) (clear : Clear rest) :
    Phrase (Text.join ", " (Expr.pairTexts ps))
      (fun xs => ∃ ps', Derives .pairs xs ps' ∧ Expr.pairsPlaceless ps' = Expr.pairsPlaceless ps) rest := by
  rw [Expr.pairTexts_eq]
  refine (Phrase.join (fun p mem => phrase_pair (legible p mem)) .comma clear_comma clear).mono fun xs joined => ?_
  cases ps with
  | nil =>
    obtain rfl : xs = [] := joined
    exact ⟨[], .pairsNil, rfl⟩
  | cons p ps =>
    obtain ⟨ys, zs, rfl, first, behind⟩ := joined
    exact derives_pairs first behind

theorem begins_of_word {w : Text} (isWord : IsWord w) : ∃ b tail, w = b :: tail ∧ b ≠ ascii '=' := by
  obtain ⟨_, b, first, letter⟩ := isWord
  obtain ⟨tail, rfl⟩ := List.head?_eq_some_iff.1 first
  refine ⟨b, tail, rfl, ?_⟩
  rintro rfl
  cases letter

theorem legible_of_literal (kind : Token.Kind) (begins : ∃ b tail, e.text = b :: tail ∧ b ≠ ascii '=')
    (phrase : ∀ rest, Clear rest → Phrase e.text (One kind e.text) rest)
    (plain : kind ≠ .leftBrace ∧ kind ≠ .functionWord)
    (literal : ∀ t : Token, t.kind = kind → t.literal = e.text → ∃ e', Literal t e' ∧ e'.placeless = e.placeless) :
    e.Legible := by
  refine ⟨begins, fun rest clear => (phrase rest clear).mono ?_⟩
  rintro _ ⟨t, rfl, isKind, spelled⟩
  obtain ⟨e', isLiteral, same⟩ := literal t isKind spelled
  refine ⟨e', (Derives.literal isLiteral).loosen _ (by decide), same, ?_⟩
  show t.kind ≠ _ ∧ t.kind ≠ _
  rwa [isKind]

theorem legible_identifier {location : Location} {name : Text} (isName : IsName name) :
    (Expr.identifier location name).Legible :=
  legible_of_literal .identifier (begins_of_word isName.1) (fun _ => Phrase.name isName) (by simp)
    fun t isKind spelled =>
    ⟨_, .identifier isKind, congrArg (Expr.identifier .start) spelled⟩

theorem legible_number {location : Location} {value : Float} (finite : Magnitude value)
    (normal : ZeroOrNormal value) : (Expr.number location value).Legible := by
  obtain ⟨n, text, reads⟩ := numberText_spelled finite normal
  have text : n.text = (Expr.number location value).text := text
  obtain ⟨b, tail, first, digit⟩ := n.begins
  refine legible_of_literal (.number value) ⟨b, tail, text.symm.trans first, ?_⟩ ?_ (by simp) ?_
  · rintro rfl
    cases digit
  · rw [← text]
    exact fun rest => Phrase.number reads
  · exact fun t isKind _ => ⟨_, .number isKind, rfl⟩

theorem legible_string {location : Location} {value : Text} : (Expr.string location value).Legible :=
  legible_of_literal (.string value) ⟨ascii '"', Quoted.escape value ++ [ascii '"'], rfl, by decide⟩
    (fun rest _ => Phrase.string value rest) (by simp) fun t isKind _ => ⟨_, .string isKind, rfl⟩

theorem legible_boolean {location : Location} {value : Bool} : (Expr.boolean location value).Legible := by
  cases value with
  | true =>
    have isWord : IsWord "true" := by decide
    exact legible_of_literal .trueWord (begins_of_word isWord) (fun _ => Phrase.word isWord) (by decide)
      fun t isKind _ =>
      ⟨_, .trueWord isKind, rfl⟩
  | false =>
    have isWord : IsWord "false" := by decide
    exact legible_of_literal .falseWord (begins_of_word isWord) (fun _ => Phrase.word isWord) (by decide)
      fun t isKind _ =>
      ⟨_, .falseWord isKind, rfl⟩

theorem legible_null {location : Location} : (Expr.null location).Legible := by
  have isWord : IsWord "null" := by decide
  exact legible_of_literal .nullWord (begins_of_word isWord) (fun _ => Phrase.word isWord) (by decide)
    fun t isKind _ =>
    ⟨_, .nullWord isKind, rfl⟩

theorem legible_array {location : Location} {es : List Expr} (legible : ∀ e ∈ es, e.Legible) :
    (Expr.array location es).Legible := by
  refine ⟨⟨ascii '[', Text.join ", " (Expr.texts es) ++ "]", rfl, by decide⟩, fun rest _ => ?_⟩
  have inside := phrase_list legible ("]" ++ rest) (.cons (by decide))
  refine (((Phrase.leftBracket _).append inside).append (.rightBracket rest)).mono ?_
  rintro _ ⟨_, _, rfl, ⟨_, xs, rfl, ⟨opening, rfl, isOpen, _⟩, es', derives, same⟩, closing, rfl, isClose, _⟩
  refine ⟨_, (Derives.array isOpen derives isClose).loosen _ (by decide), ?_, ?_⟩
  · rw [Expr.placeless, Expr.placeless, same]
  · show opening.kind ≠ _ ∧ opening.kind ≠ _
    simp [isOpen]

theorem legible_object {location : Location} {ps : List (Text × Expr)} (legible : ∀ p ∈ ps, p.2.Legible) :
    (Expr.object location ps).Legible := by
  have text : (Expr.object location ps).text =
      parenthesized ("\x7b" ++ Text.join ", " (Expr.pairTexts ps) ++ "\x7d") := by
    simp [Expr.text, parenthesized, Text.ofString]
  refine .parenthesized text fun rest => ?_
  have inside := phrase_pairs legible ("\x7d" ++ (")" ++ rest)) (.cons (by decide))
  refine (((Phrase.leftBrace _).append inside).append (.rightBrace _)).mono ?_
  rintro _ ⟨_, _, rfl, ⟨_, xs, rfl, ⟨opening, rfl, isOpen, _⟩, ps', derives, same⟩, closing, rfl, isClose, _⟩
  refine ⟨_, (Derives.object isOpen derives isClose).loosen _ (by decide), ?_⟩
  rw [Expr.placeless, Expr.placeless, same]

theorem clear_space (rest : Text) : Clear (" " ++ rest) := .cons (by decide)

theorem clear_opening (rest : Text) : Clear ("(" ++ rest) := .cons (by decide)

theorem clear_closing (rest : Text) : Clear (")" ++ rest) := .cons (by decide)

theorem legible_assign {location : Location} {name : Text} {value : Expr} (isName : IsName name)
    (legible : value.Legible) : (Expr.assign location name value).Legible := by
  refine .parenthesized (t := name ++ " = " ++ value.text) rfl fun rest => ?_
  have target : Phrase name (One .identifier name) (" = " ++ (value.text ++ (")" ++ rest))) :=
    .name isName (.cons (by decide))
  refine ((target.append (.equals _)).append (legible.phrase _ (clear_closing rest))).mono ?_
  rintro _ ⟨_, xs, rfl, ⟨_, _, rfl, ⟨t, rfl, isIdentifier, spelled⟩, equals, rfl, isEquals, _⟩, reads⟩
  obtain ⟨e', derives, same⟩ := reads.inside
  refine ⟨_, .assign (.name isIdentifier) isEquals derives, ?_⟩
  rw [Expr.placeless, Expr.placeless, same, spelled]

theorem phrase_sign (op : UnaryOperator) {b : Byte} (other : b ≠ ascii '=') (rest : Text) :
    ∃ kind, Sign kind op ∧ Phrase op.symbol (One kind op.symbol) (b :: rest) := by
  cases op with
  | negate => exact ⟨_, .negate, .mark rfl (by decide)⟩
  | not =>
    refine ⟨_, .not, .single rfl ?_⟩
    rintro _ ⟨⟩
    refine ⟨lookup_doubles fun p mem same => ?_, fun slash => absurd slash (by decide)⟩
    have ends : ∀ p ∈ Token.doubles, p.1.1 = ascii '!' → p.1.2 = ascii '=' := by decide
    have second := ends p mem (congrArg Prod.fst same)
    rw [same] at second
    exact other second

theorem legible_unary {location : Location} {op : UnaryOperator} {operand : Expr} (legible : operand.Legible) :
    (Expr.unary location op operand).Legible := by
  refine .parenthesized (t := op.symbol ++ operand.text) rfl fun rest => ?_
  obtain ⟨b, tail, first, other⟩ := legible.begins
  obtain ⟨kind, isSign, sign⟩ := phrase_sign op other (tail ++ (")" ++ rest))
  have sign : Phrase op.symbol (One kind op.symbol) (operand.text ++ (")" ++ rest)) := by rwa [first]
  refine (sign.append (legible.phrase _ (clear_closing rest))).mono ?_
  rintro _ ⟨_, xs, rfl, ⟨t, rfl, isKind, _⟩, e', derives, same, _⟩
  have signed : Derives (.expr .unary) (t :: xs) _ := .sign (isKind ▸ isSign) (derives.loosen _ (by decide))
  refine ⟨_, signed.loosen _ (by decide), ?_⟩
  rw [Expr.placeless, Expr.placeless, same]

theorem phrase_binary (op : BinaryOperator) (rest : Text) : ∃ upper lower kind,
    Joins upper lower kind (Expr.binary · op) ∧ Phrase op.symbol (One kind op.symbol) (" " ++ rest) := by
  have alone {b : Byte} : Alone b ((" " : Text) ++ rest) := .of_next (by decide) (by decide)
  cases op with
  | add => exact ⟨_, _, _, .add, .single rfl alone⟩
  | subtract => exact ⟨_, _, _, .subtract, .single rfl alone⟩
  | multiply => exact ⟨_, _, _, .multiply, .single rfl alone⟩
  | divide => exact ⟨_, _, _, .divide, .single rfl alone⟩
  | remainder => exact ⟨_, _, _, .remainder, .single rfl alone⟩
  | equal => exact ⟨_, _, _, .equal, .double rfl⟩
  | notEqual => exact ⟨_, _, _, .notEqual, .double rfl⟩
  | less => exact ⟨_, _, _, .less, .single rfl alone⟩
  | greater => exact ⟨_, _, _, .greater, .single rfl alone⟩
  | lessEqual => exact ⟨_, _, _, .lessEqual, .double rfl⟩
  | greaterEqual => exact ⟨_, _, _, .greaterEqual, .double rfl⟩

theorem phrase_logical (op : LogicalOperator) (rest : Text) : ∃ upper lower kind,
    Joins upper lower kind (Expr.logical · op) ∧ Phrase op.symbol (One kind op.symbol) (" " ++ rest) := by
  cases op with
  | and => exact ⟨_, _, _, .and, .double rfl⟩
  | or => exact ⟨_, _, _, .or, .double rfl⟩

/-- Two operands with an operator between them. -/
theorem legible_of_joins {make : Location → Expr → Expr → Expr} {location : Location} {symbol : Text}
    (text : (make location left right).text = parenthesized (left.text ++ " " ++ symbol ++ " " ++ right.text))
    (operator : ∀ rest, ∃ upper lower kind, Joins upper lower kind make ∧
      Phrase symbol (One kind symbol) (" " ++ rest))
    (placeless : ∀ (here : Location) (left' right' : Expr), left'.placeless = left.placeless →
      right'.placeless = right.placeless → (make here left' right').placeless = (make location left right).placeless)
    (first : left.Legible) (second : right.Legible) : (make location left right).Legible := by
  refine .parenthesized text fun rest => ?_
  obtain ⟨upper, lower, kind, joins, symbol⟩ := operator (right.text ++ (")" ++ rest))
  have operands := ((first.phrase _ (clear_space _)).space.append symbol).space.append
    (second.phrase _ (clear_closing rest))
  refine operands.mono ?_
  rintro _ ⟨_, ys, rfl, ⟨xs, _, rfl, ⟨left', derivesLeft, sameLeft, _⟩, t, rfl, isKind, _⟩, right', derivesRight,
    sameRight, _⟩
  have upperLevel := joins.level_le
  have lowerLevel := joins.lower_level
  have tight : Stratum.suffixed.level = 9 := rfl
  have joined : Derives (.expr upper) (xs ++ t :: ys) (make t.location left' right') :=
    .join joins (derivesLeft.loosen _ (by omega)) isKind
      (derivesRight.loosen _ (by omega))
  refine ⟨_, ?_, placeless t.location left' right' sameLeft sameRight⟩
  rw [List.append_assoc]
  exact joined.loosen _ (by cases upper <;> decide)

theorem legible_call {location : Location} {callee : Expr} {arguments : List Expr} (legible : callee.Legible)
    (others : ∀ e ∈ arguments, e.Legible) : (Expr.call location callee arguments).Legible := by
  obtain ⟨b, tail, first, other⟩ := legible.begins
  refine ⟨⟨b, tail ++ parenthesized (Text.join ", " (Expr.texts arguments)), by simp [Expr.text, first], other⟩,
    fun rest _ => ?_⟩
  have inside := phrase_list others (")" ++ rest) (clear_closing rest)
  have called := legible.phrase (parenthesized (Text.join ", " (Expr.texts arguments)) ++ rest) (.cons (by decide))
  refine (called.append (((Phrase.leftParen _).append inside).append (.rightParen rest))).mono ?_
  rintro _ ⟨xs, _, rfl, ⟨e', derives, same, plain⟩, _, _, rfl,
    ⟨_, ys, rfl, ⟨opening, rfl, isOpen, _⟩, es', list, all⟩,
    closing, rfl, isClose, _⟩
  refine ⟨_, Derives.call derives isOpen list isClose, ?_, ?_⟩
  · rw [Expr.placeless, Expr.placeless, same, all]
  · rwa [kindAt_append derives.expr_ne_nil]

theorem legible_index {location : Location} {index : Expr} (legible : left.Legible) (inner : index.Legible) :
    (Expr.index location left index).Legible := by
  refine .parenthesized (t := left.text ++ "[" ++ index.text ++ "]") rfl fun rest => ?_
  have array := legible.phrase ("[" ++ (index.text ++ ("]" ++ (")" ++ rest)))) (.cons (by decide))
  have inside := inner.phrase ("]" ++ (")" ++ rest)) (.cons (by decide))
  refine (((array.append (.leftBracket _)).append inside).append (.rightBracket _)).mono ?_
  rintro _ ⟨_, _, rfl, ⟨_, ys, rfl, ⟨xs, _, rfl, ⟨e', derives, same, _⟩, opening, rfl, isOpen, _⟩, reads⟩, closing,
    rfl, isClose, _⟩
  obtain ⟨i', derivesIndex, sameIndex⟩ := reads.inside
  refine ⟨.index opening.location e' i', ?_, ?_⟩
  · rw [List.append_assoc, List.append_assoc]
    exact (Derives.index derives isOpen derivesIndex isClose).loosen _ (by decide)
  · rw [Expr.placeless, Expr.placeless, same, sameIndex]

end TinyScript
