import TinyScript.Program
import TinyScript.Diagnostic
import TinyScript.Number.Display

namespace TinyScript

/-- What a program should have had, or may not have, at a token. -/
inductive GrammarFault where
  | expression
  | variableName
  | variableEnd
  | returnEnd
  | expressionEnd
  | blockEnd
  | ifOpen
  | ifClose
  | whileOpen
  | whileClose
  | forOpen
  | initializerEnd
  | conditionEnd
  | forClose
  | functionOpen
  | namedFunctionOpen
  | parameterName
  | parametersClose
  | bodyOpen
  | groupClose
  | argumentsClose
  | indexClose
  | elementsClose
  | memberName
  | propertyName
  | propertyColon
  | objectClose
  | assignmentTarget
  deriving DecidableEq

def GrammarFault.message : GrammarFault → Text
  | expression => "Expect expression."
  | variableName => "Expect variable name."
  | variableEnd => "Expect ';' after variable declaration."
  | returnEnd => "Expect ';' after return value."
  | expressionEnd => "Expect ';' after expression."
  | blockEnd => "Expect '\x7d' after block."
  | ifOpen => "Expect '(' after 'if'."
  | ifClose => "Expect ')' after if condition."
  | whileOpen => "Expect '(' after 'while'."
  | whileClose => "Expect ')' after condition."
  | forOpen => "Expect '(' after 'for'."
  | initializerEnd => "Expect ';' after loop initializer."
  | conditionEnd => "Expect ';' after loop condition."
  | forClose => "Expect ')' after for clauses."
  | functionOpen => "Expect '(' after 'function'."
  | namedFunctionOpen => "Expect '(' after function name."
  | parameterName => "Expect parameter name."
  | parametersClose => "Expect ')' after parameters."
  | bodyOpen => "Expect '\x7b' before function body."
  | groupClose => "Expect ')' after expression."
  | argumentsClose => "Expect ')' after arguments."
  | indexClose => "Expect ']' after index."
  | elementsClose => "Expect ']' after array elements."
  | memberName => "Expect property name after '.'."
  | propertyName => "Expect property name."
  | propertyColon => "Expect ':' after property name."
  | objectClose => "Expect '\x7d' after object literal."
  | assignmentTarget => "Invalid assignment target."

structure GrammarError where
  found : Token
  fault : GrammarFault
  deriving DecidableEq

/-- The place is the token as it is spelled, or the end of the source. -/
def GrammarError.diagnostic (e : GrammarError) : Diagnostic where
  kind := .grammatical
  line := e.found.location.line
  place := if e.found.kind = .endOfInput then "at end" else "at '" ++ e.found.literal ++ "'"
  message := e.fault.message

/-- Words that only begin a statement, or a function. -/
def Token.Kind.beginsStatement : Token.Kind → Bool
  | varWord | functionWord | ifWord | whileWord | forWord | returnWord => true
  | _ => false

/-- The next statement boundary: behind a semicolon, or before a word that begins a statement. -/
def resync : List Token → List Token
  | [] => []
  | t :: rest =>
    if t.kind.beginsStatement then t :: rest
    else if t.kind = .semicolon then rest
    else resync rest

/-- The next statement boundary behind a token that has been taken. A semicolon is a boundary, a word that
begins a statement no longer is. -/
def resyncBehind (taken : Token) (rest : List Token) : List Token :=
  if taken.kind = .semicolon then rest else resync rest

/-- The answer of a parser, with the errors that it found. After a failure reading can go on at `resume`. -/
inductive Reply (α : Type) where
  | ok (value : α) (rest : List Token) (errors : List GrammarError)
  | failed (resume : List Token) (errors : List GrammarError)

/-- Puts errors that were found earlier in front. -/
def Reply.behind {α : Type} (earlier : List GrammarError) : Reply α → Reply α
  | ok value rest errors => ok value rest (earlier ++ errors)
  | failed resume errors => failed resume (earlier ++ errors)

/-- A parser knows where the source ends, and reads the tokens that are left. -/
def Parser (α : Type) : Type := Location → List Token → Reply α

namespace Parser

variable {α β : Type}

def bind (p : Parser α) (f : α → Parser β) : Parser β := fun finish source =>
  match p finish source with
  | .ok value rest errors => (f value finish rest).behind errors
  | .failed resume errors => .failed resume errors

instance : Monad Parser where
  pure value := fun _ source => .ok value source []
  bind := bind

/-- The next token, which stays. Behind the last one this is the closing token. -/
def look : Parser Token := fun finish source => .ok (source.head?.getD (.finish finish)) source []

/-- The kind of the token behind the next one. -/
def lookBehind : Parser Token.Kind := fun finish source =>
  .ok (source.tail.head?.getD (.finish finish)).kind source []

def skip : Parser Unit := fun _ source => .ok () source.tail []

/-- Takes the next token, whatever it is. -/
def take (fault : GrammarFault) : Parser Token := fun finish source =>
  match source with
  | [] => .failed [] [⟨.finish finish, fault⟩]
  | t :: rest => .ok t rest []

/-- Takes the next token if it is of a kind. -/
def accept (kind : Token.Kind) : Parser (Option Token) := fun _ source =>
  match source with
  | [] => .ok none [] []
  | t :: rest => if t.kind = kind then .ok (some t) rest [] else .ok none source []

/-- Takes a token of a kind. Any other token stays, and is an error. -/
def expect (kind : Token.Kind) (fault : GrammarFault) : Parser Token := fun finish source =>
  match source with
  | [] => .failed [] [⟨.finish finish, fault⟩]
  | t :: rest => if t.kind = kind then .ok t rest [] else .failed (resync source) [⟨t, fault⟩]

/-- A token that has been taken does not fit. -/
def reject (t : Token) (fault : GrammarFault) : Parser α := fun _ rest =>
  .failed (resyncBehind t rest) [⟨t, fault⟩]

/-- Notes an error and goes on. -/
def report (t : Token) (fault : GrammarFault) : Parser Unit := fun _ source => .ok () source [⟨t, fault⟩]

/-- What a failed parser has read is left out. -/
def recover (p : Parser α) : Parser (Option α) := fun finish source =>
  match p finish source with
  | .ok value rest errors => .ok (some value) rest errors
  | .failed resume errors => .ok none resume errors

/-- The answer when the budget is used up, which `Program.ofTokens` never lets happen. -/
def exhausted : Parser α := fun _ _ => .failed [] []

/-- The end of a statement. The last statement of a block or of a source may leave the semicolon out. -/
def statementEnd (fault : GrammarFault) : Parser Unit := do
  let t ← look
  if t.kind = .semicolon then skip
  else if t.kind = .rightBrace ∨ t.kind = .endOfInput then pure ()
  else do
    let _ ← expect .semicolon fault

end Parser

/-- What may stand behind an expression and carry it on. -/
inductive Connective where
  | assign
  | logical (op : LogicalOperator)
  | binary (op : BinaryOperator)
  | call
  | index
  | member
  deriving DecidableEq

namespace Connective

/-- How strongly a connective binds. -/
def level : Connective → Nat
  | assign => 1
  | logical .or => 2
  | logical .and => 3
  | binary .equal | binary .notEqual => 4
  | binary .less | binary .greater | binary .lessEqual | binary .greaterEqual => 5
  | binary .add | binary .subtract => 6
  | binary .multiply | binary .divide | binary .remainder => 7
  | call | index | member => 9

/-- Signs in front of an operand bind more strongly than operators, and less than calls. -/
def unaryLevel : Nat := 8

def ofKind? : Token.Kind → Option Connective
  | .assign => some assign
  | .logicalOr => some (logical .or)
  | .logicalAnd => some (logical .and)
  | .equal => some (binary .equal)
  | .notEqual => some (binary .notEqual)
  | .less => some (binary .less)
  | .greater => some (binary .greater)
  | .lessEqual => some (binary .lessEqual)
  | .greaterEqual => some (binary .greaterEqual)
  | .plus => some (binary .add)
  | .minus => some (binary .subtract)
  | .asterisk => some (binary .multiply)
  | .slash => some (binary .divide)
  | .percent => some (binary .remainder)
  | .leftParen => some call
  | .leftBracket => some index
  | .dot => some member
  | _ => none

end Connective

namespace Parser

/-- Parameters behind the first one. -/
def moreParameters : Nat → Parser (List Text)
  | 0 => exhausted
  | n + 1 => do
    match ← accept .comma with
    | none => pure []
    | some _ =>
      let name ← expect .identifier .parameterName
      let more ← moreParameters n
      pure (name.literal :: more)

def parameters (n : Nat) : Parser (List Text) := do
  match ← accept .rightParen with
  | some _ => pure []
  | none =>
    let name ← expect .identifier .parameterName
    let more ← moreParameters n
    let _ ← expect .rightParen .parametersClose
    pure (name.literal :: more)

/-- The key of a property. Numbers are keys by their text. -/
def propertyKey : Parser Text := do
  let t ← take .propertyName
  match t.kind with
  | .identifier => pure t.literal
  | .string contents => pure contents
  | .number value => pure (numberText value)
  | _ => reject t .propertyName

mutual

/-- An expression of connectives that bind more strongly than `level`. -/
def expression : Nat → Nat → Parser Expr
  | 0, _ => exhausted
  | n + 1, level => do
    let left ← operand n
    carryOn n level left

/-- An expression up to the first connective. -/
def operand : Nat → Parser Expr
  | 0 => exhausted
  | n + 1 => do
    let t ← take .expression
    match t.kind with
    | .identifier => pure (.identifier t.location t.literal)
    | .number value => pure (.number t.location value)
    | .string contents => pure (.string t.location contents)
    | .trueWord => pure (.boolean t.location true)
    | .falseWord => pure (.boolean t.location false)
    | .nullWord => pure (.null t.location)
    | .exclamation => return .unary t.location .not (← expression n Connective.unaryLevel)
    | .minus => return .unary t.location .negate (← expression n Connective.unaryLevel)
    | .leftParen =>
      let inside ← expression n 0
      let _ ← expect .rightParen .groupClose
      pure inside
    | .functionWord => return .function (← functionLiteral n t.location)
    | .leftBracket => return .array t.location (← list n .rightBracket .elementsClose)
    | .leftBrace => return .object t.location (← pairs n)
    | _ => reject t .expression

/-- Carries an expression on as long as connectives bind more strongly than `level`. -/
def carryOn : Nat → Nat → Expr → Parser Expr
  | 0, _, _ => exhausted
  | n + 1, level, left => do
    let t ← look
    match Connective.ofKind? t.kind with
    | none => pure left
    | some connective =>
      if level < connective.level then do
        skip
        let whole ← connect n connective t left
        carryOn n level whole
      else pure left

/-- The expression that a connective makes of what stands before it and what follows. Assignments take all
that follows, other operators only what binds more strongly. -/
def connect : Nat → Connective → Token → Expr → Parser Expr
  | 0, _, _, _ => exhausted
  | n + 1, .assign, t, left => do
    let value ← expression n 0
    match left with
    | .identifier location name => pure (.assign location name value)
    | _ =>
      report t .assignmentTarget
      pure left
  | n + 1, .logical op, t, left =>
    return .logical t.location op left (← expression n (Connective.logical op).level)
  | n + 1, .binary op, t, left =>
    return .binary t.location op left (← expression n (Connective.binary op).level)
  | n + 1, .call, t, left => return .call t.location left (← list n .rightParen .argumentsClose)
  | n + 1, .index, t, left => do
    let inside ← expression n 0
    let _ ← expect .rightBracket .indexClose
    pure (.index t.location left inside)
  | _ + 1, .member, t, left => do
    let name ← expect .identifier .memberName
    pure (.index t.location left (.string name.location name.literal))

/-- Expressions between commas up to a closing token. -/
def list : Nat → Token.Kind → GrammarFault → Parser (List Expr)
  | 0, _, _ => exhausted
  | n + 1, close, fault => do
    match ← accept close with
    | some _ => pure []
    | none =>
      let first ← expression n 0
      let more ← moreExpressions n
      let _ ← expect close fault
      pure (first :: more)

def moreExpressions : Nat → Parser (List Expr)
  | 0 => exhausted
  | n + 1 => do
    match ← accept .comma with
    | none => pure []
    | some _ =>
      let next ← expression n 0
      let more ← moreExpressions n
      pure (next :: more)

/-- The properties of an object up to its closing brace. A comma may stand behind the last one. -/
def pairs : Nat → Parser (List (Text × Expr))
  | 0 => exhausted
  | n + 1 => do
    match ← accept .rightBrace with
    | some _ => pure []
    | none =>
      let key ← propertyKey
      let _ ← expect .colon .propertyColon
      let value ← expression n 0
      match ← accept .comma with
      | some _ =>
        let more ← pairs n
        pure ((key, value) :: more)
      | none =>
        let _ ← expect .rightBrace .objectClose
        pure [(key, value)]

/-- A function behind its first word. -/
def functionLiteral : Nat → Location → Parser FunctionLiteral
  | 0, _ => exhausted
  | n + 1, location => do
    let name ← accept .identifier
    let _ ← expect .leftParen (if name.isSome then .namedFunctionOpen else .functionOpen)
    let names ← parameters n
    let brace ← expect .leftBrace .bodyOpen
    let body ← blockBody n
    pure ⟨location, (name.map (·.literal)).getD [], names, brace.location, body⟩

/-- Statements up to a closing brace. -/
def blockBody : Nat → Parser (List Stmt)
  | 0 => exhausted
  | n + 1 => do
    let t ← look
    if t.kind = .rightBrace ∨ t.kind = .endOfInput then do
      let _ ← expect .rightBrace .blockEnd
      pure []
    else do
      let first ← recover (statement n)
      let more ← blockBody n
      pure (first.toList ++ more)

/-- The name and the value of a variable, behind the first word of its declaration. -/
def declaration : Nat → Location → Parser Stmt
  | 0, _ => exhausted
  | n + 1, location => do
    let name ← expect .identifier .variableName
    match ← accept .assign with
    | none => pure (.var location name.literal none)
    | some _ => return .var location name.literal (some (← expression n 0))

/-- The first clause of a loop, with its semicolon. -/
def initializer : Nat → Parser (Option Stmt)
  | 0 => exhausted
  | n + 1 => do
    let t ← look
    if t.kind = .semicolon then do
      skip
      pure none
    else if t.kind = .varWord then do
      skip
      let first ← declaration n t.location
      let _ ← expect .semicolon .initializerEnd
      pure (some first)
    else do
      let value ← expression n 0
      let _ ← expect .semicolon .initializerEnd
      pure (some (.expression t.location value))

/-- The second clause of a loop, with its semicolon. -/
def loopCondition : Nat → Parser (Option Expr)
  | 0 => exhausted
  | n + 1 => do
    match ← accept .semicolon with
    | some _ => pure none
    | none =>
      let condition ← expression n 0
      let _ ← expect .semicolon .conditionEnd
      pure (some condition)

/-- The third clause of a loop, with the closing parenthesis. -/
def increment : Nat → Parser (Option Expr)
  | 0 => exhausted
  | n + 1 => do
    match ← accept .rightParen with
    | some _ => pure none
    | none =>
      let step ← expression n 0
      let _ ← expect .rightParen .forClose
      pure (some step)

def statement : Nat → Parser Stmt
  | 0 => exhausted
  | n + 1 => do
    let t ← look
    match t.kind with
    | .varWord =>
      skip
      let declared ← declaration n t.location
      statementEnd .variableEnd
      pure declared
    | .functionWord =>
      if (← lookBehind) = .identifier then do
        skip
        return .function (← functionLiteral n t.location)
      else expressionStatement n t.location
    | .ifWord =>
      skip
      let _ ← expect .leftParen .ifOpen
      let condition ← expression n 0
      let _ ← expect .rightParen .ifClose
      let consequence ← statement n
      match ← accept .elseWord with
      | none => pure (.ifElse t.location condition consequence none)
      | some _ => return .ifElse t.location condition consequence (some (← statement n))
    | .whileWord =>
      skip
      let _ ← expect .leftParen .whileOpen
      let condition ← expression n 0
      let _ ← expect .rightParen .whileClose
      return .whileLoop t.location condition (← statement n)
    | .forWord =>
      skip
      let _ ← expect .leftParen .forOpen
      let first ← initializer n
      let condition ← loopCondition n
      let step ← increment n
      return .forLoop t.location first condition step (← statement n)
    | .returnWord =>
      skip
      let next ← look
      if next.kind = .semicolon ∨ next.kind = .rightBrace ∨ next.kind = .endOfInput then do
        statementEnd .returnEnd
        pure (.returns t.location none)
      else do
        let value ← expression n 0
        statementEnd .returnEnd
        pure (.returns t.location (some value))
    | .leftBrace =>
      skip
      return .block t.location (← blockBody n)
    | .semicolon =>
      skip
      pure (.block t.location [])
    | _ => expressionStatement n t.location

def expressionStatement : Nat → Location → Parser Stmt
  | 0, _ => exhausted
  | n + 1, location => do
    let value ← expression n 0
    statementEnd .expressionEnd
    pure (.expression location value)

end

/-- Statements up to the end of the source. -/
def statements : Nat → Parser (List Stmt)
  | 0 => exhausted
  | n + 1 => do
    let t ← look
    if t.kind = .endOfInput then pure []
    else do
      let first ← recover (statement n)
      let more ← statements n
      pure (first.toList ++ more)

/-- Enough for any program of some tokens: between two tokens no more than a few parsers are entered. -/
def budget (tokens : List Token) : Nat := 8 * tokens.length + 8

end Parser

/-- The program that tokens make up, and the errors in it. A statement with an error is left out, and reading goes on at
the next statement boundary, so one pass reports independent errors. The closing token is not among the tokens, only its
place is given. -/
def Program.ofTokens (tokens : List Token) (finish : Location) : Program × List Diagnostic :=
  let location := (tokens.head?.map (·.location)).getD finish
  match Parser.statements (Parser.budget tokens) finish tokens with
  | .ok body _ errors => (⟨location, body⟩, errors.map (·.diagnostic))
  | .failed _ errors => (⟨location, []⟩, errors.map (·.diagnostic))

end TinyScript
