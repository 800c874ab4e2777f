import TinyScript.Token
import TinyScript.Quoted
import TinyScript.Diagnostic
import TinyScript.Number.Numeral

namespace TinyScript

/-- Why a stretch of source is no token. -/
inductive LexicalFault where
  | unexpected (b : Byte)
  | unterminatedComment
  | unterminatedString
  | invalidEscape (letter : Byte)
  | malformedNumber (literal : Text)
  | numberOutOfRange (literal : Text)
  deriving DecidableEq

def LexicalFault.message : LexicalFault → Text
  | unexpected b => "Unexpected character '" ++ [b] ++ "'."
  | unterminatedComment => "Unterminated block comment."
  | unterminatedString => "Unterminated string."
  | invalidEscape letter => "Invalid escape sequence '" ++ [Quoted.backslash, letter] ++ "'."
  | malformedNumber literal => "Invalid number literal '" ++ literal ++ "'."
  | numberOutOfRange literal => "Number literal '" ++ literal ++ "' is out of range."

/-- A fault some lines below the start of its piece. -/
structure Complaint where
  down : Nat
  fault : LexicalFault
  deriving DecidableEq

/-- A piece of source: blanks and comments, a token, or a stretch that is rejected with one or more complaints. The
pieces put together are the source, so a place is always the place behind the pieces before it. -/
inductive Piece where
  | blank (text : Text)
  | token (kind : Token.Kind) (literal : Text)
  | rejected (text : Text) (complaints : List Complaint)
  deriving DecidableEq

namespace Piece

/-- The stretch of source that a piece covers. -/
def text : Piece → Text
  | blank text => text
  | token _ literal => literal
  | rejected text _ => text

/-- The text up to the end of a block comment and the text behind it, if the comment ends. -/
def closeComment? : Text → Option (Text × Text)
  | [] => none
  | [_] => none
  | b :: c :: rest =>
    if b = ascii '*' ∧ c = ascii '/' then some ([b, c], rest)
    else (closeComment? (c :: rest)).map fun (inside, behind) => (b :: inside, behind)

/-- What stands behind an opening quote. -/
structure StringBody where
  /-- The bytes up to the closing quote and with it, or all that is left. -/
  taken : Text
  contents : Text
  complaints : List Complaint
  behind : Text

/-- Reads a string up to its closing quote. An invalid escape is noted and skipped, `down` lines below the
start of the string, and the string goes on. -/
def stringBody (down : Nat) : Text → StringBody
  | [] => ⟨[], [], [⟨0, .unterminatedString⟩], []⟩
  | b :: rest =>
    if b = ascii '"' then ⟨[b], [], [], rest⟩
    else if b = Quoted.backslash then
      match rest with
      | [] => ⟨[b], [], [⟨0, .unterminatedString⟩], []⟩
      | letter :: rest =>
        let body := stringBody (down + Text.breaks [letter]) rest
        match Quoted.meaning? letter with
        | some meant => { body with taken := b :: letter :: body.taken, contents := meant :: body.contents }
        | none =>
          { body with
            taken := b :: letter :: body.taken
            complaints := ⟨down, .invalidEscape letter⟩ :: body.complaints }
    else
      let body := stringBody (down + Text.breaks [b]) rest
      { body with taken := b :: body.taken, contents := b :: body.contents }

/-- The fraction of a numeral: a point and at least one digit. -/
def fraction : Text → Text × Text
  | point :: digit :: rest =>
    if point = ascii '.' ∧ isDigit digit then
      (digit :: rest.takeWhile isDigit, rest.dropWhile isDigit)
    else ([], point :: digit :: rest)
  | source => ([], source)

/-- An exponent as it is written. It needs digits to be valid. -/
structure Exponent where
  mark : Text
  sign : Text
  digits : Text
  deriving DecidableEq

namespace Exponent

def text (e : Exponent) : Text := e.mark ++ e.sign ++ e.digits

def valid (e : Exponent) : Bool := e.mark = [] || e.digits ≠ []

def value (e : Exponent) : Int :=
  if e.sign = [ascii '-'] then -(e.digits.digitsValue : Int) else e.digits.digitsValue

end Exponent

/-- The exponent that a source begins with, and the source behind it. -/
def exponent : Text → Exponent × Text
  | [] => (⟨[], [], []⟩, [])
  | mark :: rest =>
    if mark = ascii 'e' ∨ mark = ascii 'E' then
      let sign := (rest.take 1).filter fun b => b = ascii '+' || b = ascii '-'
      let behind := rest.drop sign.length
      (⟨[mark], sign, behind.takeWhile isDigit⟩, behind.dropWhile isDigit)
    else (⟨[], [], []⟩, mark :: rest)

/-- Reads a number. A letter behind it, or an exponent without digits, spoils the whole run of letters and
digits. -/
def number (source : Text) : Piece × Text :=
  let whole := source.takeWhile isDigit
  let (fraction, rest) := fraction (source.dropWhile isDigit)
  let (exponent, rest) := exponent rest
  let literal := whole ++ (if fraction = [] then [] else ascii '.' :: fraction) ++ exponent.text
  let tail := rest.takeWhile isWordByte
  if !exponent.valid || (rest.head?.map isLetter).getD false then
    (rejected (literal ++ tail) [⟨0, .malformedNumber (literal ++ tail)⟩], rest.drop tail.length)
  else match (Numeral.mk whole fraction exponent.value).value? with
    | some value => (token (.number value) literal, rest)
    | none => (rejected literal [⟨0, .numberOutOfRange literal⟩], rest)

def word (source : Text) : Piece × Text :=
  let literal := source.takeWhile isWordByte
  (token (.ofWord literal) literal, source.dropWhile isWordByte)

/-- Reads a string from its opening quote on. One complaint is enough to reject it. -/
def string (quote : Byte) (rest : Text) : Piece × Text :=
  let body := stringBody 0 rest
  let literal := quote :: body.taken
  (if body.complaints = [] then token (.string body.contents) literal else rejected literal body.complaints,
    body.behind)

/-- The comment that two bytes begin: to the end of its line, or to the closing mark. -/
def comment? (slash b : Byte) (rest : Text) : Option (Piece × Text) :=
  if slash ≠ ascii '/' then none
  else if b = ascii '/' then
    some (blank (slash :: b :: rest.takeWhile (· ≠ newline)), rest.dropWhile (· ≠ newline))
  else if b = ascii '*' then
    match closeComment? rest with
    | some (inside, behind) => some (blank (slash :: b :: inside), behind)
    | none => some (rejected (slash :: b :: rest) [⟨0, .unterminatedComment⟩], [])
  else none

def double? (b c : Byte) (rest : Text) : Option (Piece × Text) :=
  (Token.doubles.lookup (b, c)).map fun kind => (token kind [b, c], rest)

def single? (b : Byte) (rest : Text) : Option (Piece × Text) :=
  (Token.singles.lookup b).map fun kind => (token kind [b], rest)

/-- What a source begins with if it is a mark: a comment wins over an operator, the longer operator over the
shorter one. -/
def mark? (b : Byte) : Text → Option (Piece × Text)
  | [] => single? b []
  | c :: rest => (comment? b c rest).or ((double? b c rest).or (single? b (c :: rest)))

/-- The first piece of a source that begins with `b`, and the source behind it. -/
def first (b : Byte) (rest : Text) : Piece × Text :=
  if isBlank b then (blank [b], rest)
  else match mark? b rest with
    | some found => found
    | none =>
      if b = ascii '"' then string b rest
      else if isLetter b then word (b :: rest)
      else if isDigit b then number (b :: rest)
      else (rejected [b] [⟨0, .unexpected b⟩], rest)

end Piece

end TinyScript
