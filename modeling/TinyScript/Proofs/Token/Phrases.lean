import TinyScript.Token.Source
import TinyScript.Proofs.Number.Text

namespace TinyScript

open Piece Text

/-- Before `rest` the text is cut off as tokens like this, and nothing of it is rejected. -/
def Phrase (text : Text) (P : List Token → Prop) (rest : Text) : Prop :=
  ∃ pieces, split (text ++ rest) = pieces ++ split rest ∧ (∀ p ∈ pieces, ∀ line, p.diagnostics line = []) ∧
    ∀ here, P (tokens here pieces)

/-- No token at all. -/
def Nothing (xs : List Token) : Prop := xs = []

/-- One token of a kind, with its spelling. -/
def One (kind : Token.Kind) (literal : Text) (xs : List Token) : Prop :=
  ∃ t, xs = [t] ∧ t.kind = kind ∧ t.literal = literal

/-- Some tokens, and behind them some others. -/
def Then (P Q : List Token → Prop) (xs : List Token) : Prop := ∃ ys zs, xs = ys ++ zs ∧ P ys ∧ Q zs

theorem Piece.tokens_append (here : Location) (ps qs : List Piece) :
    tokens here (ps ++ qs) = tokens here ps ++ tokens (here.after (ps.flatMap text)) qs := by
  have after (here : Location) (a b : Text) : here.after (a ++ b) = (here.after a).after b := List.foldl_append
  induction ps generalizing here with
  | nil => rfl
  | cons p ps ih =>
    cases p with
    | token kind literal =>
      have rest := ih (here.after literal)
      simp only [List.cons_append, tokens, rest, List.flatMap_cons, after, text]
    | blank text =>
      have rest := ih (here.after text)
      simp only [List.cons_append, tokens, rest, List.flatMap_cons, after, Piece.text]
    | rejected text complaints =>
      have rest := ih (here.after text)
      simp only [List.cons_append, tokens, rest, List.flatMap_cons, after, Piece.text]

theorem Piece.split_cons (b : Byte) (rest : Text) :
    split (b :: rest) = (first b rest).1 :: split (first b rest).2 := by
  rw [split]

namespace Phrase

variable {a b rest : Text} {P Q : List Token → Prop}

theorem mono (phrase : Phrase a P rest) (weaker : ∀ xs, P xs → Q xs) : Phrase a Q rest := by
  obtain ⟨pieces, cut, clean, tokens⟩ := phrase
  exact ⟨pieces, cut, clean, fun here => weaker _ (tokens here)⟩

theorem nil : Phrase [] Nothing rest :=
  ⟨[], rfl, fun _ none => (List.not_mem_nil none).elim, fun _ => rfl⟩

theorem append (first : Phrase a P (b ++ rest)) (second : Phrase b Q rest) : Phrase (a ++ b) (Then P Q) rest := by
  obtain ⟨ps, cut, clean, tokens⟩ := first
  obtain ⟨qs, cut', clean', tokens'⟩ := second
  refine ⟨ps ++ qs, ?_, fun p mem => ?_, fun here => ?_⟩
  · rw [List.append_assoc, cut, cut', List.append_assoc]
  · rcases List.mem_append.1 mem with mem | mem
    · exact clean p mem
    · exact clean' p mem
  · exact ⟨_, _, Piece.tokens_append here ps qs, tokens here, tokens' _⟩

/-- A text whose first piece is a token that ends where the text ends. -/
theorem of_first {x : Byte} {literal : Text} {kind : Token.Kind}
    (cut : Piece.first x (literal ++ rest) = (.token kind (x :: literal), rest)) :
    Phrase (x :: literal) (One kind (x :: literal)) rest := by
  refine ⟨[.token kind (x :: literal)], ?_, fun p mem => ?_, fun here => ⟨_, rfl, rfl, rfl⟩⟩
  · show split (x :: (literal ++ rest)) = _
    rw [Piece.split_cons, cut]
    rfl
  · cases List.mem_singleton.1 mem
    exact fun _ => rfl

theorem blank : Phrase " " Nothing rest := by
  refine ⟨[.blank " "], ?_, fun p mem => ?_, fun _ => rfl⟩
  · show split (ascii ' ' :: rest) = _
    rw [Piece.split_cons]
    rfl
  · cases List.mem_singleton.1 mem
    exact fun _ => rfl

end Phrase

namespace Phrase

variable {a b rest : Text} {P : List Token → Prop}

/-- A space behind a phrase. -/
theorem space (phrase : Phrase a P (" " ++ rest)) : Phrase (a ++ " ") P rest := by
  refine (phrase.append .blank).mono ?_
  rintro _ ⟨xs, _, rfl, all, rfl⟩
  rwa [List.append_nil]

/-- A space before a phrase. -/
theorem indent (phrase : Phrase a P rest) : Phrase (" " ++ a) P rest := by
  refine (Phrase.blank.append phrase).mono ?_
  rintro _ ⟨_, xs, rfl, rfl, all⟩
  exact all

end Phrase

theorem Piece.allDiagnostics_nil {pieces : List Piece} (clean : ∀ p ∈ pieces, ∀ line, p.diagnostics line = [])
    (here : Location) : allDiagnostics here pieces = [] := by
  induction pieces generalizing here with
  | nil => rfl
  | cons p pieces ih =>
    rw [allDiagnostics, clean p List.mem_cons_self, List.nil_append,
      ih fun q mem => clean q (List.mem_cons_of_mem _ mem)]

/-- A phrase that is a whole source. -/
theorem Phrase.source {t : Text} {P : List Token → Prop} (phrase : Phrase t P []) :
    (Source.ofText t).diagnostics = [] ∧ P (Source.ofText t).tokens := by
  obtain ⟨pieces, cut, clean, tokens⟩ := phrase
  have none : Piece.split [] = [] := by rw [Piece.split]
  rw [List.append_nil, none, List.append_nil] at cut
  have diagnostics := Piece.allDiagnostics_nil clean .start
  rw [← cut] at diagnostics tokens
  exact ⟨diagnostics, tokens .start⟩

section Joined

variable {ι : Type} {separator : Text} {S : List Token → Prop} {P : ι → List Token → Prop} {text : ι → Text}
  {items : List ι} {rest : Text}

/-- Items, each behind a separator. -/
def Behind (S : List Token → Prop) (P : ι → List Token → Prop) : List ι → List Token → Prop
  | [] => Nothing
  | i :: more => Then S (Then (P i) (Behind S P more))

/-- Items with separators between them. -/
def Joined (S : List Token → Prop) (P : ι → List Token → Prop) : List ι → List Token → Prop
  | [] => Nothing
  | i :: more => Then (P i) (Behind S P more)

theorem Text.join_cons (separator part : Text) (more : List Text) :
    Text.join separator (part :: more) = part ++ more.flatMap (separator ++ ·) := by
  induction more generalizing part with
  | nil => simp [Text.join]
  | cons next more ih =>
    have step : Text.join separator (part :: next :: more) =
        part ++ (separator ++ Text.join separator (next :: more)) := by
      simp [Text.join, List.intercalate_cons_cons]
    rw [step, ih, List.flatMap_cons, List.append_assoc]

theorem Clear.behind (between : ∀ rest, Clear (separator ++ rest)) (parts : List Text) (clear : Clear rest) :
    Clear (parts.flatMap (separator ++ ·) ++ rest) := by
  cases parts with
  | nil => exact clear
  | cons part parts =>
    rw [List.flatMap_cons, List.append_assoc, List.append_assoc]
    exact between _

theorem Phrase.behind (each : ∀ i ∈ items, ∀ rest, Clear rest → Phrase (text i) (P i) rest)
    (separates : ∀ rest, Phrase separator S rest) (between : ∀ rest, Clear (separator ++ rest))
    (clear : Clear rest) :
    Phrase ((items.map text).flatMap (separator ++ ·)) (Behind S P items) rest := by
  induction items with
  | nil => exact .nil
  | cons i items ih =>
    have others := ih fun j mem => each j (List.mem_cons_of_mem _ mem)
    have item := each i List.mem_cons_self _ (.behind between (items.map text) clear)
    rw [List.map_cons, List.flatMap_cons, List.append_assoc]
    exact (separates _).append (item.append others)

/-- Phrases with separators between them are a phrase. -/
theorem Phrase.join (each : ∀ i ∈ items, ∀ rest, Clear rest → Phrase (text i) (P i) rest)
    (separates : ∀ rest, Phrase separator S rest) (between : ∀ rest, Clear (separator ++ rest))
    (clear : Clear rest) :
    Phrase (Text.join separator (items.map text)) (Joined S P items) rest := by
  cases items with
  | nil => exact .nil
  | cons i items =>
    have others := Phrase.behind (fun j mem => each j (List.mem_cons_of_mem _ mem)) separates between clear
    rw [List.map_cons, Text.join_cons]
    exact (each i List.mem_cons_self _ (.behind between (items.map text) clear)).append others

end Joined

/-- The byte does not make a longer mark with the one that follows it. -/
def Alone (b : Byte) (rest : Text) : Prop :=
  ∀ c, rest.head? = some c → Token.doubles.lookup (b, c) = none ∧ (b = ascii '/' → c ≠ ascii '/' ∧ c ≠ ascii '*')

theorem lookup_doubles {b c : Byte} (other : ∀ p ∈ Token.doubles, p.1 ≠ (b, c)) :
    Token.doubles.lookup (b, c) = none :=
  List.lookup_eq_none_iff.2 fun p mem => by simpa using (other p mem).symm

namespace Alone

variable {b c : Byte} {rest : Text}

/-- Marks that do not begin a longer one. -/
theorem of_mark (short : ∀ p ∈ Token.doubles, p.1.1 ≠ b) (noSlash : b ≠ ascii '/') : Alone b rest :=
  fun _ _ => ⟨lookup_doubles fun p mem same => short p mem (congrArg Prod.fst same),
    fun slash => absurd slash noSlash⟩

/-- A byte that does not end a longer mark. -/
theorem of_next (other : ∀ p ∈ Token.doubles, p.1.2 ≠ c) (noComment : c ≠ ascii '/' ∧ c ≠ ascii '*') :
    Alone b (c :: rest) := by
  rintro _ ⟨⟩
  exact ⟨lookup_doubles fun p mem same => other p mem (congrArg Prod.snd same), fun _ => noComment⟩

end Alone

theorem comment?_none {b c : Byte} {rest : Text} (alone : b = ascii '/' → c ≠ ascii '/' ∧ c ≠ ascii '*') :
    comment? b c rest = none := by
  unfold comment?
  by_cases slash : b = ascii '/'
  · rw [if_neg (not_not.2 slash), if_neg (alone slash).1, if_neg (alone slash).2]
  · rw [if_pos slash]

theorem mem_of_lookup {α β : Type} [BEq α] [LawfulBEq α] {table : List (α × β)} {key : α} {value : β}
    (found : table.lookup key = some value) : (key, value) ∈ table := by
  obtain ⟨before, behind, rfl, _⟩ := List.lookup_eq_some_iff.1 found
  simp

theorem notBlank_of_single : ∀ p ∈ Token.singles, isBlank p.1 = false := by
  decide

theorem notBlank_of_double : ∀ p ∈ Token.doubles, isBlank p.1.1 = false ∧ p.1.1 ≠ ascii '/' := by
  decide

theorem mark?_single {b : Byte} {kind : Token.Kind} {rest : Text} (found : Token.singles.lookup b = some kind)
    (alone : Alone b rest) : mark? b rest = some (.token kind [b], rest) := by
  have single : single? b rest = some (.token kind [b], rest) := by
    rw [single?, found]
    rfl
  cases rest with
  | nil => exact single
  | cons c rest =>
    have alone := alone c rfl
    rw [mark?, comment?_none alone.2, double?, alone.1]
    exact single

theorem Phrase.single {b : Byte} {kind : Token.Kind} {rest : Text} (found : Token.singles.lookup b = some kind)
    (alone : Alone b rest) : Phrase [b] (One kind [b]) rest := by
  have visible := notBlank_of_single _ (mem_of_lookup found)
  refine .of_first ?_
  rw [List.nil_append, first, visible, mark?_single found alone]
  rfl

/-- Marks that never begin a longer one. -/
theorem Phrase.mark {b : Byte} {kind : Token.Kind} {rest : Text} (found : Token.singles.lookup b = some kind)
    (short : (∀ p ∈ Token.doubles, p.1.1 ≠ b) ∧ b ≠ ascii '/') : Phrase [b] (One kind [b]) rest :=
  .single found (.of_mark short.1 short.2)

namespace Phrase

variable (rest : Text)

theorem leftParen : Phrase "(" (One .leftParen "(") rest := mark rfl (by decide)

theorem rightParen : Phrase ")" (One .rightParen ")") rest := mark rfl (by decide)

theorem leftBracket : Phrase "[" (One .leftBracket "[") rest := mark rfl (by decide)

theorem rightBracket : Phrase "]" (One .rightBracket "]") rest := mark rfl (by decide)

theorem leftBrace : Phrase "\x7b" (One .leftBrace "\x7b") rest := mark rfl (by decide)

theorem rightBrace : Phrase "\x7d" (One .rightBrace "\x7d") rest := mark rfl (by decide)

theorem semicolon : Phrase ";" (One .semicolon ";") rest := mark rfl (by decide)

theorem comma : Phrase ", " (One .comma ",") rest := (mark (b := ascii ',') rfl (by decide)).space

/-- The end of a condition or of parameters, with a space behind it. -/
theorem closing : Phrase ") " (One .rightParen ")") rest := (rightParen _).space

theorem colon : Phrase ": " (One .colon ":") rest := (mark (b := ascii ':') rfl (by decide)).space

/-- The sign of an assignment, with spaces around it. -/
theorem equals : Phrase " = " (One .assign "=") rest :=
  (single (b := ascii '=') rfl (.of_next (by decide) (by decide))).space.indent

end Phrase

theorem mark?_double {b c : Byte} {kind : Token.Kind} {rest : Text}
    (found : Token.doubles.lookup (b, c) = some kind) :
    mark? b (c :: rest) = some (.token kind [b, c], rest) := by
  have noSlash := (notBlank_of_double _ (mem_of_lookup found)).2
  rw [mark?, comment?_none fun slash => absurd slash noSlash, double?, found]
  rfl

theorem Phrase.double {b c : Byte} {kind : Token.Kind} {rest : Text}
    (found : Token.doubles.lookup (b, c) = some kind) :
    Phrase [b, c] (One kind [b, c]) rest := by
  have visible := (notBlank_of_double _ (mem_of_lookup found)).1
  refine .of_first ?_
  show first b (c :: rest) = _
  rw [first, visible, mark?_double found]
  rfl

/-- Letters, digits and quotes are no marks. -/
theorem mark?_none {b : Byte} (rest : Text) (plain : isWordByte b = true ∨ b = ascii '"') : mark? b rest = none := by
  have singles : ∀ p ∈ Token.singles, isWordByte p.1 = false ∧ p.1 ≠ ascii '"' := by decide
  have doubles : ∀ p ∈ Token.doubles, isWordByte p.1.1 = false ∧ p.1.1 ≠ ascii '"' := by decide
  have noSingle : single? b rest = none := by
    have none : Token.singles.lookup b = none := by
      refine List.lookup_eq_none_iff.2 fun p mem => ?_
      rw [bne_iff_ne]
      rintro rfl
      rcases plain with word | quote
      · exact Bool.false_ne_true ((singles p mem).1.symm.trans word)
      · exact (singles p mem).2 quote
    rw [single?, none]
    rfl
  cases rest with
  | nil => exact noSingle
  | cons c rest =>
    have noSlash : b ≠ ascii '/' := by
      rintro rfl
      rcases plain with word | quote
      · cases word
      · cases quote
    have noDouble : Token.doubles.lookup (b, c) = none := by
      refine lookup_doubles fun p mem same => ?_
      obtain rfl : p.1.1 = b := congrArg Prod.fst same
      rcases plain with word | quote
      · exact Bool.false_ne_true ((doubles p mem).1.symm.trans word)
      · exact (doubles p mem).2 quote
    rw [mark?, comment?_none fun slash => absurd slash noSlash, double?, noDouble]
    exact noSingle

theorem notBlank_of_wordByte {b : Byte} (word : isWordByte b) : isBlank b = false ∧ b ≠ ascii '"' := by
  constructor
  · refine Bool.eq_false_iff.2 fun blank => ?_
    have blank : ((b = ascii ' ' ∨ b = ascii '\t') ∨ b = newline) ∨ b = ascii '\r' := by
      simpa only [isBlank, Bool.or_eq_true, decide_eq_true_eq] using blank
    rcases blank with ((rfl | rfl) | rfl) | rfl <;> cases word
  · rintro rfl
    cases word

theorem notLetter_of_isDigit {b : Byte} (digit : isDigit b) : isLetter b = false := by
  have digit := isDigit_iff.1 digit
  have low : ¬ ascii 'a' ≤ b := fun le => by
    have le := UInt8.le_iff_toNat_le.1 le
    have a : (ascii 'a').toNat = 97 := rfl
    omega
  have high : ¬ ascii 'A' ≤ b := fun le => by
    have le := UInt8.le_iff_toNat_le.1 le
    have a : (ascii 'A').toNat = 65 := rfl
    omega
  have line : b ≠ ascii '_' := by
    rintro rfl
    have a : (ascii '_').toNat = 95 := rfl
    omega
  simp [isLetter, low, high, line]

theorem first_word {b : Byte} (letter : isLetter b) (rest : Text) : first b rest = word (b :: rest) := by
  have isWordByte : isWordByte b := by rw [isWordByte, letter, Bool.true_or]
  have plain := notBlank_of_wordByte isWordByte
  rw [first, plain.1, mark?_none _ (.inl isWordByte)]
  simp [plain.2, letter]

theorem first_number {b : Byte} (digit : isDigit b) (rest : Text) : first b rest = number (b :: rest) := by
  have isWordByte : isWordByte b := by rw [isWordByte, digit, Bool.or_true]
  have plain := notBlank_of_wordByte isWordByte
  rw [first, plain.1, mark?_none _ (.inl isWordByte), notLetter_of_isDigit digit]
  simp [plain.2, digit]

theorem first_string (rest : Text) : first (ascii '"') rest = string (ascii '"') rest := by
  have plain : isBlank (ascii '"') = false := rfl
  rw [first, plain, mark?_none _ (.inr rfl)]
  rfl

/-- A text that is read as one word. -/
def IsWord (w : Text) : Prop := (∀ b ∈ w, isWordByte b) ∧ ∃ b, w.head? = some b ∧ isLetter b

/-- A word that is not reserved. -/
def IsName (w : Text) : Prop := IsWord w ∧ Token.Kind.ofWord w = .identifier

instance (w : Text) : Decidable (IsWord w) :=
  decidable_of_iff (w.all isWordByte && (w.head?.any isLetter)) (by simp [IsWord, Option.any_eq_true])

theorem Phrase.word {w rest : Text} (isWord : IsWord w) (clear : Clear rest) :
    Phrase w (One (.ofWord w) w) rest := by
  obtain ⟨all, b, begins, letter⟩ := isWord
  cases w with
  | nil => cases begins
  | cons c w =>
    cases begins
    have run := takeWhile_run (b :: w) rest all fun c found => (clear c found).1
    have run : (b :: (w ++ rest)).takeWhile isWordByte = b :: w ∧
        (b :: (w ++ rest)).dropWhile isWordByte = rest := run
    refine .of_first ?_
    rw [first_word letter, Piece.word, run.1, run.2]

/-- A reserved word and a space. -/
theorem Phrase.keyword {w rest : Text} {kind : Token.Kind} (isWord : IsWord w)
    (reserved : Token.Kind.ofWord w = kind) :
    Phrase (w ++ " ") (One kind w) rest := by
  subst reserved
  exact (Phrase.word isWord (.cons (by decide))).space

theorem Phrase.name {w rest : Text} (isName : IsName w) (clear : Clear rest) :
    Phrase w (One .identifier w) rest := by
  have word := Phrase.word isName.1 clear
  rwa [isName.2] at word

theorem Phrase.number {n : Spelling} {value : Float} {rest : Text} (reads : n.numeral.value? = some value)
    (clear : Clear rest) : Phrase n.text (One (.number value) n.text) rest := by
  have cut := n.number_text reads clear
  obtain ⟨b, tail, same, digit⟩ := n.begins
  rw [same] at cut ⊢
  refine .of_first ?_
  rw [first_number digit]
  exact cut

theorem escapes_meaning : ∀ p ∈ Quoted.escapes, Quoted.meaning? p.1 = some p.2 := by
  have all : Quoted.escapes.all (fun p => Quoted.meaning? p.1 = some p.2) = true := by decide
  exact fun p mem => of_decide_eq_true (List.all_eq_true.1 all p mem)

theorem letter?_eq_some {meant letter : Byte} (found : Quoted.letter? meant = some letter) :
    Quoted.meaning? letter = some meant := by
  obtain ⟨p, inside, rfl⟩ := Option.map_eq_some_iff.1 found
  have same : p.2 = meant := by simpa using List.find?_some inside
  exact same ▸ escapes_meaning p (List.mem_of_find?_eq_some inside)

theorem escape_some {b letter : Byte} (found : Quoted.letter? b = some letter) (contents : Text) :
    Quoted.escape (b :: contents) = Quoted.backslash :: letter :: Quoted.escape contents := by
  rw [Quoted.escape, List.flatMap_cons, found]
  rfl

theorem escape_none {b : Byte} (none : Quoted.letter? b = none) (contents : Text) :
    Quoted.escape (b :: contents) = b :: Quoted.escape contents := by
  rw [Quoted.escape, List.flatMap_cons, none]
  rfl

/-- What is written between quotes is read as it was. -/
theorem stringBody_escape (down : Nat) (contents rest : Text) :
    stringBody down (Quoted.escape contents ++ ascii '"' :: rest) =
      ⟨Quoted.escape contents ++ [ascii '"'], contents, [], rest⟩ := by
  induction contents generalizing down with
  | nil =>
    show stringBody down (ascii '"' :: rest) = _
    rw [stringBody.eq_def]
    dsimp only
    rw [if_pos rfl]
    rfl
  | cons b contents ih =>
    cases found : Quoted.letter? b with
    | some letter =>
      rw [escape_some found]
      show stringBody down (Quoted.backslash :: letter :: (Quoted.escape contents ++ ascii '"' :: rest)) = _
      rw [stringBody.eq_def]
      dsimp only
      rw [if_neg (by decide), if_pos rfl, letter?_eq_some found, ih]
      rfl
    | none =>
      have noQuote : b ≠ ascii '"' := by
        rintro rfl
        cases found
      have noEscape : b ≠ Quoted.backslash := by
        rintro rfl
        cases found
      rw [escape_none found]
      show stringBody down (b :: (Quoted.escape contents ++ ascii '"' :: rest)) = _
      rw [stringBody.eq_def]
      dsimp only
      rw [if_neg noQuote, if_neg noEscape, ih]
      rfl

theorem Phrase.string (contents rest : Text) :
    Phrase (Quoted.write contents) (One (.string contents) (Quoted.write contents)) rest := by
  have body : stringBody 0 (Quoted.escape contents ++ [ascii '"'] ++ rest) =
      ⟨Quoted.escape contents ++ [ascii '"'], contents, [], rest⟩ := by
    rw [List.append_assoc]
    exact stringBody_escape 0 contents rest
  refine .of_first (?_ : first _ (Quoted.escape contents ++ [ascii '"'] ++ rest) = _)
  rw [first_string, Piece.string, body]
  rfl

end TinyScript
