import TinyScript.Proofs.Parser.Reply

namespace TinyScript.Grammar

/-- The strata of expressions, the loosest first. -/
inductive Stratum where
  | expression | or | and | equality | comparison | additive | multiplicative | unary | suffixed | primary
  deriving DecidableEq

/-- Whatever is in the second stratum is in the first one too. -/
inductive Stratum.Includes : Stratum → Stratum → Prop
  | expression : Includes .expression .or
  | or : Includes .or .and
  | and : Includes .and .equality
  | equality : Includes .equality .comparison
  | comparison : Includes .comparison .additive
  | additive : Includes .additive .multiplicative
  | multiplicative : Includes .multiplicative .unary
  | unary : Includes .unary .suffixed
  | suffixed : Includes .suffixed .primary

/-- The operators between two operands. The left operand may be of the operator's own stratum, the right one
is tighter, so operators of one stratum group to the left. -/
inductive Joins : Stratum → Stratum → Token.Kind → (Location → Expr → Expr → Expr) → Prop
  | or : Joins .or .and .logicalOr (Expr.logical · .or)
  | and : Joins .and .equality .logicalAnd (Expr.logical · .and)
  | equal : Joins .equality .comparison .equal (Expr.binary · .equal)
  | notEqual : Joins .equality .comparison .notEqual (Expr.binary · .notEqual)
  | less : Joins .comparison .additive .less (Expr.binary · .less)
  | greater : Joins .comparison .additive .greater (Expr.binary · .greater)
  | lessEqual : Joins .comparison .additive .lessEqual (Expr.binary · .lessEqual)
  | greaterEqual : Joins .comparison .additive .greaterEqual (Expr.binary · .greaterEqual)
  | add : Joins .additive .multiplicative .plus (Expr.binary · .add)
  | subtract : Joins .additive .multiplicative .minus (Expr.binary · .subtract)
  | multiply : Joins .multiplicative .unary .asterisk (Expr.binary · .multiply)
  | divide : Joins .multiplicative .unary .slash (Expr.binary · .divide)
  | remainder : Joins .multiplicative .unary .percent (Expr.binary · .remainder)

inductive Sign : Token.Kind → UnaryOperator → Prop
  | not : Sign .exclamation .not
  | negate : Sign .minus .negate

/-- What is assigned to: a name, in any number of parentheses. -/
inductive Target : List Token → Location → Text → Prop
  | name {t : Token} : t.kind = .identifier → Target [t] t.location t.literal
  | group {opening closing : Token} {xs : List Token} {location : Location} {name : Text} :
      opening.kind = .leftParen → Target xs location name → closing.kind = .rightParen →
      Target (opening :: (xs ++ [closing])) location name

/-- Expressions of a single token. -/
inductive Literal : Token → Expr → Prop
  | identifier {t : Token} : t.kind = .identifier → Literal t (.identifier t.location t.literal)
  | number {t : Token} {value : Float} : t.kind = .number value → Literal t (.number t.location value)
  | string {t : Token} {contents : Text} : t.kind = .string contents → Literal t (.string t.location contents)
  | trueWord {t : Token} : t.kind = .trueWord → Literal t (.boolean t.location true)
  | falseWord {t : Token} : t.kind = .falseWord → Literal t (.boolean t.location false)
  | nullWord {t : Token} : t.kind = .nullWord → Literal t (.null t.location)

/-- The key of a property. -/
inductive Key : Token → Text → Prop
  | identifier {t : Token} : t.kind = .identifier → Key t t.literal
  | string {t : Token} {contents : Text} : t.kind = .string contents → Key t contents
  | number {t : Token} {value : Float} : t.kind = .number value → Key t (numberText value)

/-- The name of a function, which may be missing. -/
inductive Name : List Token → Text → Prop
  | missing : Name [] []
  | given {t : Token} : t.kind = .identifier → Name [t] t.literal

/-- Parameters behind the first one, each behind a comma. -/
inductive MoreParameters : List Token → List Text → Prop
  | done : MoreParameters [] []
  | more {comma t : Token} {xs : List Token} {names : List Text} : comma.kind = .comma → t.kind = .identifier →
      MoreParameters xs names → MoreParameters (comma :: t :: xs) (t.literal :: names)

inductive Parameters : List Token → List Text → Prop
  | empty : Parameters [] []
  | names {t : Token} {xs : List Token} {names : List Text} : t.kind = .identifier → MoreParameters xs names →
      Parameters (t :: xs) (t.literal :: names)

/-- The end of a statement. Before a closing brace and at the end of the source nothing is needed. -/
inductive End (next : Token.Kind) : List Token → Prop
  | semicolon {t : Token} : t.kind = .semicolon → End next [t]
  | omitted : next = .rightBrace ∨ next = .endOfInput → End next []

/-- The kind of the first of some tokens, or else of the token behind them. -/
def firstKind (xs : List Token) (next : Token.Kind) : Token.Kind := (xs.head?.map (·.kind)).getD next

/-- What tokens can be read as. Statements know the kind of the token that is next behind them, because the last one of
a block may leave out its semicolon, and because an `else` belongs to the nearest `if`. -/
inductive Nonterminal where
  | expr (stratum : Stratum)
  | list
  | more
  | pairs
  | function
  | declaration
  | initializer
  /-- A clause of a loop, with the token that closes it. -/
  | clause (close : Token.Kind)
  | statement (next : Token.Kind)
  | statements (next : Token.Kind)

/-- What is made of the tokens. -/
@[reducible] def Nonterminal.Tree : Nonterminal → Type
  | expr _ => Expr
  | list | more => List Expr
  | pairs => List (Text × Expr)
  | function => FunctionLiteral
  | declaration | statement _ => Stmt
  | initializer => Option Stmt
  | clause _ => Option Expr
  | statements _ => List Stmt

/-- The tokens can be read as the nonterminal, with the given tree. How a program is read does not occur here. -/
inductive Derives : (nonterminal : Nonterminal) → List Token → nonterminal.Tree → Prop
  -- Expressions
  | looser {upper lower : Stratum} {xs : List Token} {e : Expr} : upper.Includes lower →
      Derives (.expr lower) xs e → Derives (.expr upper) xs e
  | assign {xs ys : List Token} {t : Token} {location : Location} {name : Text} {value : Expr} :
      Target xs location name → t.kind = .assign → Derives (.expr .expression) ys value →
      Derives (.expr .expression) (xs ++ t :: ys) (.assign location name value)
  | join {upper lower : Stratum} {kind : Token.Kind} {make : Location → Expr → Expr → Expr}
      {xs ys : List Token} {t : Token} {left right : Expr} : Joins upper lower kind make →
      Derives (.expr upper) xs left → t.kind = kind → Derives (.expr lower) ys right →
      Derives (.expr upper) (xs ++ t :: ys) (make t.location left right)
  | sign {t : Token} {op : UnaryOperator} {xs : List Token} {operand : Expr} : Sign t.kind op →
      Derives (.expr .unary) xs operand → Derives (.expr .unary) (t :: xs) (.unary t.location op operand)
  | call {xs ys : List Token} {opening closing : Token} {callee : Expr} {arguments : List Expr} :
      Derives (.expr .suffixed) xs callee → opening.kind = .leftParen → Derives .list ys arguments →
      closing.kind = .rightParen →
      Derives (.expr .suffixed) (xs ++ opening :: (ys ++ [closing])) (.call opening.location callee arguments)
  | index {xs ys : List Token} {opening closing : Token} {left index : Expr} :
      Derives (.expr .suffixed) xs left → opening.kind = .leftBracket → Derives (.expr .expression) ys index →
      closing.kind = .rightBracket →
      Derives (.expr .suffixed) (xs ++ opening :: (ys ++ [closing])) (.index opening.location left index)
  | member {xs : List Token} {dot name : Token} {left : Expr} : Derives (.expr .suffixed) xs left →
      dot.kind = .dot → name.kind = .identifier →
      Derives (.expr .suffixed) (xs ++ [dot, name])
        (.index dot.location left (.string name.location name.literal))
  | literal {t : Token} {e : Expr} : Literal t e → Derives (.expr .primary) [t] e
  | group {xs : List Token} {opening closing : Token} {e : Expr} : opening.kind = .leftParen →
      Derives (.expr .expression) xs e → closing.kind = .rightParen →
      Derives (.expr .primary) (opening :: (xs ++ [closing])) e
  | lambda {xs : List Token} {literal : FunctionLiteral} : Derives .function xs literal →
      Derives (.expr .primary) xs (.function literal)
  | array {xs : List Token} {opening closing : Token} {elements : List Expr} : opening.kind = .leftBracket →
      Derives .list xs elements → closing.kind = .rightBracket →
      Derives (.expr .primary) (opening :: (xs ++ [closing])) (.array opening.location elements)
  | object {xs : List Token} {opening closing : Token} {pairs : List (Text × Expr)} :
      opening.kind = .leftBrace → Derives .pairs xs pairs → closing.kind = .rightBrace →
      Derives (.expr .primary) (opening :: (xs ++ [closing])) (.object opening.location pairs)
  -- Lists
  | listNil : Derives .list [] []
  | listCons {xs ys : List Token} {first : Expr} {more : List Expr} : Derives (.expr .expression) xs first →
      Derives .more ys more → Derives .list (xs ++ ys) (first :: more)
  | moreNil : Derives .more [] []
  | moreCons {comma : Token} {xs ys : List Token} {next : Expr} {more : List Expr} : comma.kind = .comma →
      Derives (.expr .expression) xs next → Derives .more ys more →
      Derives .more (comma :: (xs ++ ys)) (next :: more)
  | pairsNil : Derives .pairs [] []
  | pairsLast {t colon : Token} {key : Text} {xs : List Token} {value : Expr} : Key t key →
      colon.kind = .colon → Derives (.expr .expression) xs value →
      Derives .pairs (t :: colon :: xs) [(key, value)]
  | pairsCons {t colon comma : Token} {key : Text} {xs ys : List Token} {value : Expr}
      {more : List (Text × Expr)} : Key t key → colon.kind = .colon → Derives (.expr .expression) xs value →
      comma.kind = .comma → Derives .pairs ys more →
      Derives .pairs (t :: colon :: (xs ++ comma :: ys)) ((key, value) :: more)
  | function {word opening closing brace last : Token} {ns ps xs : List Token} {name : Text}
      {parameters : List Text} {body : List Stmt} : word.kind = .functionWord → Name ns name →
      opening.kind = .leftParen → Parameters ps parameters → closing.kind = .rightParen →
      brace.kind = .leftBrace → Derives (.statements .rightBrace) xs body → last.kind = .rightBrace →
      Derives .function (word :: (ns ++ opening :: (ps ++ closing :: brace :: (xs ++ [last]))))
        ⟨word.location, name, parameters, brace.location, body⟩
  -- Clauses of loops
  | declared {word name : Token} : word.kind = .varWord → name.kind = .identifier →
      Derives .declaration [word, name] (.var word.location name.literal none)
  | initialized {word name equals : Token} {xs : List Token} {value : Expr} : word.kind = .varWord →
      name.kind = .identifier → equals.kind = .assign → Derives (.expr .expression) xs value →
      Derives .declaration (word :: name :: equals :: xs) (.var word.location name.literal (some value))
  | noInitializer {close : Token} : close.kind = .semicolon → Derives .initializer [close] none
  | declares {xs : List Token} {close : Token} {s : Stmt} : Derives .declaration xs s →
      close.kind = .semicolon → Derives .initializer (xs ++ [close]) (some s)
  | evaluated {t : Token} {xs : List Token} {close : Token} {e : Expr} :
      Derives (.expr .expression) (t :: xs) e → close.kind = .semicolon →
      Derives .initializer (t :: (xs ++ [close])) (some (.expression t.location e))
  | noClause {close : Token} : Derives (.clause close.kind) [close] none
  | aClause {xs : List Token} {close : Token} {e : Expr} : Derives (.expr .expression) xs e →
      Derives (.clause close.kind) (xs ++ [close]) (some e)
  -- Statements
  | var {next : Token.Kind} {xs ys : List Token} {s : Stmt} : Derives .declaration xs s → End next ys →
      Derives (.statement next) (xs ++ ys) s
  | functionDeclaration {next : Token.Kind} {word name : Token} {xs : List Token} {literal : FunctionLiteral} :
      Derives .function (word :: name :: xs) literal → name.kind = .identifier →
      Derives (.statement next) (word :: name :: xs) (.function literal)
  | ifOnly {next : Token.Kind} {word opening closing : Token} {cs xs : List Token} {condition : Expr}
      {consequence : Stmt} : word.kind = .ifWord → opening.kind = .leftParen →
      Derives (.expr .expression) cs condition → closing.kind = .rightParen →
      Derives (.statement next) xs consequence → next ≠ .elseWord →
      Derives (.statement next) (word :: opening :: (cs ++ closing :: xs))
        (.ifElse word.location condition consequence none)
  | ifElse {next : Token.Kind} {word opening closing other : Token} {cs xs ys : List Token} {condition : Expr}
      {consequence alternative : Stmt} : word.kind = .ifWord → opening.kind = .leftParen →
      Derives (.expr .expression) cs condition → closing.kind = .rightParen →
      Derives (.statement .elseWord) xs consequence → other.kind = .elseWord →
      Derives (.statement next) ys alternative →
      Derives (.statement next) (word :: opening :: (cs ++ closing :: (xs ++ other :: ys)))
        (.ifElse word.location condition consequence (some alternative))
  | whileLoop {next : Token.Kind} {word opening closing : Token} {cs xs : List Token} {condition : Expr}
      {body : Stmt} : word.kind = .whileWord → opening.kind = .leftParen →
      Derives (.expr .expression) cs condition → closing.kind = .rightParen →
      Derives (.statement next) xs body →
      Derives (.statement next) (word :: opening :: (cs ++ closing :: xs))
        (.whileLoop word.location condition body)
  | forLoop {next : Token.Kind} {word opening : Token} {is cs ns xs : List Token} {first : Option Stmt}
      {condition step : Option Expr} {body : Stmt} : word.kind = .forWord → opening.kind = .leftParen →
      Derives .initializer is first → Derives (.clause .semicolon) cs condition →
      Derives (.clause .rightParen) ns step → Derives (.statement next) xs body →
      Derives (.statement next) (word :: opening :: (is ++ (cs ++ (ns ++ xs))))
        (.forLoop word.location first condition step body)
  | returnNull {next : Token.Kind} {word : Token} {ys : List Token} : word.kind = .returnWord → End next ys →
      Derives (.statement next) (word :: ys) (.returns word.location none)
  | returnValue {next : Token.Kind} {word : Token} {xs ys : List Token} {value : Expr} :
      word.kind = .returnWord → Derives (.expr .expression) xs value → End next ys →
      Derives (.statement next) (word :: (xs ++ ys)) (.returns word.location (some value))
  | block {next : Token.Kind} {brace last : Token} {xs : List Token} {body : List Stmt} :
      brace.kind = .leftBrace → Derives (.statements .rightBrace) xs body → last.kind = .rightBrace →
      Derives (.statement next) (brace :: (xs ++ [last])) (.block brace.location body)
  | empty {next : Token.Kind} {t : Token} : t.kind = .semicolon →
      Derives (.statement next) [t] (.block t.location [])
  /-- An expression statement begins neither like a block nor like the declaration of a function. -/
  | expression {next : Token.Kind} {t : Token} {xs ys : List Token} {e : Expr} :
      Derives (.expr .expression) (t :: xs) e → t.kind ≠ .leftBrace →
      (t.kind = .functionWord → kindAt xs ≠ .identifier) → End next ys →
      Derives (.statement next) (t :: (xs ++ ys)) (.expression t.location e)
  | done {next : Token.Kind} : Derives (.statements next) [] []
  | andThen {next : Token.Kind} {xs ys : List Token} {s : Stmt} {more : List Stmt} :
      Derives (.statement (firstKind ys next)) xs s → Derives (.statements next) ys more →
      Derives (.statements next) (xs ++ ys) (s :: more)

end TinyScript.Grammar
