import TinyScript.Location

namespace TinyScript

namespace Token

inductive Kind where
  | assign | asterisk | colon | comma | dot | exclamation | greater | leftBracket | less | leftParen
  | leftBrace | minus | percent | plus | rightBracket | rightParen | rightBrace | semicolon | slash
  | equal | notEqual | greaterEqual | lessEqual | logicalAnd | logicalOr
  | identifier
  | number (value : Float)
  | string (contents : Text)
  | varWord | functionWord | trueWord | falseWord | nullWord | ifWord | elseWord | whileWord | forWord
  | returnWord
  | endOfInput
  deriving DecidableEq

/-- How a kind of token is called. Words that mean an operator are called like the operator. -/
def Kind.name : Kind → Text
  | assign => "="
  | asterisk => "*"
  | colon => ":"
  | comma => ","
  | dot => "."
  | exclamation => "!"
  | greater => ">"
  | leftBracket => "["
  | less => "<"
  | leftParen => "("
  | leftBrace => "\x7b"
  | minus => "-"
  | percent => "%"
  | plus => "+"
  | rightBracket => "]"
  | rightParen => ")"
  | rightBrace => "\x7d"
  | semicolon => ";"
  | slash => "/"
  | equal => "=="
  | notEqual => "!="
  | greaterEqual => ">="
  | lessEqual => "<="
  | logicalAnd => "&&"
  | logicalOr => "||"
  | identifier => "identifier"
  | number _ => "number"
  | string _ => "string"
  | varWord => "var"
  | functionWord => "function"
  | trueWord => "true"
  | falseWord => "false"
  | nullWord => "null"
  | ifWord => "if"
  | elseWord => "else"
  | whileWord => "while"
  | forWord => "for"
  | returnWord => "return"
  | endOfInput => "eof"

/-- Operators of two bytes. They win over the operators of one byte that they begin with. -/
def doubles : List ((Byte × Byte) × Kind) :=
  [((ascii '=', ascii '='), .equal), ((ascii '!', ascii '='), .notEqual), ((ascii '<', ascii '='), .lessEqual),
    ((ascii '>', ascii '='), .greaterEqual), ((ascii '&', ascii '&'), .logicalAnd),
    ((ascii '|', ascii '|'), .logicalOr)]

/-- Operators and punctuation of one byte. -/
def singles : List (Byte × Kind) :=
  [(ascii '*', .asterisk), (ascii '\x7d', .rightBrace), (ascii ']', .rightBracket), (ascii ')', .rightParen),
    (ascii ':', .colon), (ascii ',', .comma), (ascii '=', .assign), (ascii '>', .greater), (ascii '<', .less),
    (ascii '\x7b', .leftBrace), (ascii '[', .leftBracket), (ascii '(', .leftParen), (ascii ';', .semicolon),
    (ascii '.', .dot), (ascii '/', .slash), (ascii '%', .percent), (ascii '+', .plus), (ascii '-', .minus),
    (ascii '!', .exclamation)]

/-- Words that cannot be names. -/
def keywords : List (Text × Kind) :=
  [("var", .varWord), ("function", .functionWord), ("true", .trueWord), ("false", .falseWord),
    ("null", .nullWord), ("if", .ifWord), ("else", .elseWord), ("while", .whileWord), ("for", .forWord),
    ("return", .returnWord), ("and", .logicalAnd), ("or", .logicalOr)]

/-- A word is a name unless it is reserved. -/
def Kind.ofWord (word : Text) : Kind := (keywords.lookup word).getD .identifier

end Token

/-- A word of the language. Numbers and strings also keep what they stand for, in their kind. -/
structure Token where
  kind : Token.Kind
  /-- The spelling in the source. -/
  literal : Text
  location : Location
  deriving DecidableEq

namespace Token

/-- The token that closes every source. -/
def finish (here : Location) : Token := ⟨.endOfInput, [], here⟩

/-- A token with its kind, spelling and place, for people. The closing accent is two bytes long. -/
def text (filename : Text) (t : Token) : Text :=
  "token\x7b" ++ t.kind.name ++ ", \x60" ++ t.literal ++ ([0xC2, 0xB4] : Text) ++ " " ++
    t.location.text filename ++ "\x7d"

end Token

end TinyScript
