import ScriptedNotes.Script.Lexer
import ScriptedNotes.Script.Literal
import ScriptedNotes.Script.Syntax

/-!
The grammar of the full language, read from tokens. `expression` and `statement` take a fuel that
bounds how deep they call themselves; the readers of whole sources give them more than any source
can use up. How a string literal is read is a parameter: the short dialects take its text as it is,
the full language looks for expressions in braces.
-/

namespace ScriptedNotes.Script

/-- The place of a reader: the line of the token before, and the tokens ahead. -/
structure Cursor where
  previous : Option Nat
  rest : List Located

namespace Cursor

def ofTokens (tokens : List Located) : Cursor :=
  ⟨none, tokens⟩

def head? (c : Cursor) : Option Token :=
  c.rest.head?.map (·.token)

/-- The token after the next. -/
def second? (c : Cursor) : Option Token :=
  (c.rest.drop 1).head?.map (·.token)

/-- The line of the next token, or of the last one at the end. -/
def line (c : Cursor) : Nat :=
  match c.rest with
  | t :: _ => t.line
  | [] => c.previous.getD 1

/-- Whether the next token stands on the line of the one before. -/
def onSameLine (c : Cursor) : Bool :=
  match c.rest, c.previous with
  | t :: _, some line => t.line == line
  | _, _ => false

/-- The place behind the next token. -/
def advance (c : Cursor) : Cursor :=
  match c.rest with
  | t :: rest => ⟨some t.line, rest⟩
  | [] => c

/-- The next token is not what was looked for. -/
def unexpected (c : Cursor) (sought : Expectation) : SyntaxError :=
  .unexpected c.head? sought c.line

end Cursor

/-- A reader takes tokens off the cursor or says why it cannot. -/
abbrev Reader := StateT Cursor (Except SyntaxError)

/-- How a string literal of a line is read. -/
abbrev LiteralReader := String → Nat → Except SyntaxError Expr

namespace Reader

def fail {α : Type} (e : SyntaxError) : Reader α :=
  throw e

def unexpected {α : Type} (sought : Expectation) : Reader α := do
  fail ((← get).unexpected sought)

def skip : Reader Unit :=
  modify Cursor.advance

/-- Takes a token if it comes next, and says whether it did. -/
def eat (t : Token) : Reader Bool := do
  if (← get).head? = some t then
    skip
    return true
  else return false

def expect (t : Token) : Reader Unit := do
  unless ← eat t do unexpected (.token t)

def expectEnd : Reader Unit := do
  if (← get).head?.isSome then unexpected .endOfInput

def name (role : String) : Reader String := do
  match (← get).head? with
  | some (.name s) =>
    skip
    return s
  | _ => unexpected (.name role)

end Reader

/-- Words that take arguments without parentheses. -/
def isCommandWord (word : String) : Bool :=
  word ∈ ["print", "error", "success", "clear", "sleep"]

/-- The levels of the binary operators, from the loosest to the tightest. -/
def BinaryOp.level : BinaryOp → Nat
  | .or => 1
  | .and => 2
  | .eq | .notEq => 3
  | .lt | .le | .gt | .ge => 4
  | .add | .sub => 5
  | .mul | .div | .rem => 6

/-- The operator that a token stands for between two operands. -/
def binaryOp? : Token → Option BinaryOp
  | .symbol .or => some .or
  | .symbol .and => some .and
  | .symbol .eq => some .eq
  | .symbol .notEq => some .notEq
  | .symbol .lt => some .lt
  | .symbol .le => some .le
  | .symbol .gt => some .gt
  | .symbol .ge => some .ge
  | .symbol .plus => some .add
  | .symbol .minus => some .sub
  | .symbol .star => some .mul
  | .symbol .slash => some .div
  | .symbol .percent => some .rem
  | _ => none

/-- The operator that comes next, if it is one of a level. -/
def Cursor.operatorAt? (c : Cursor) (level : Nat) : Option BinaryOp :=
  (c.head?.bind binaryOp?).filter fun op => op.level = level

/-- Whether names with commas between them and a closing parenthesis follow, and then an arrow;
`wantsName` holds where no comma may stand. -/
def arrowFollows (wantsName : Bool) : List Located → Bool
  | [] => false
  | t :: rest =>
    match t.token with
    | .symbol .closeParen => rest.head?.map (·.token) = some (.symbol .arrow)
    | .name _ => wantsName && arrowFollows false rest
    | .symbol .comma => !wantsName && arrowFollows true rest
    | _ => false

/-- Whether an expression may be the left side of an assignment. -/
def Expr.isTarget : Expr → Bool
  | .ident _ | .member .. | .index .. => true
  | _ => false

section

open Reader

/-- Parameter names up to the closing parenthesis. -/
def paramNames : Nat → Reader (List String)
  | 0 => unexpected (.name "parameter name")
  | fuel + 1 => do
    let first ← name "parameter name"
    if ← eat (.symbol .closeParen) then return [first]
    expect (.symbol .comma)
    return first :: (← paramNames fuel)

/-- A list of parameters in parentheses. -/
def params : Reader (List String) := do
  expect (.symbol .openParen)
  if ← eat (.symbol .closeParen) then return []
  paramNames ((← get).rest.length + 1)

variable (literal : LiteralReader)

mutual

/-- An expression of a level or a tighter one; past the binary operators come the prefix ones. -/
def expressionAt : Nat → Nat → Reader Expr
  | 0, _ => unexpected .expression
  | fuel + 1, level =>
    if level ≤ 6 then do
      let left ← expressionAt fuel (level + 1)
      operatorChain fuel level left
    else do
      match (← get).head? with
      | some (.symbol .bang) =>
        skip
        return .unary .not (← expressionAt fuel level)
      | some (.symbol .minus) =>
        skip
        return .unary .neg (← expressionAt fuel level)
      | some (.keyword .awaitKw) =>
        skip
        expressionAt fuel level
      | _ =>
        let head ← primary fuel
        suffixes fuel head

/-- Operators of one level with their right operands, grouped from the left. -/
def operatorChain : Nat → Nat → Expr → Reader Expr
  | 0, _, _ => unexpected .expression
  | fuel + 1, level, left => do
    match (← get).operatorAt? level with
    | some op =>
      skip
      let right ← expressionAt fuel (level + 1)
      operatorChain fuel level (.binary op left right)
    | none => return left

/-- Members, calls and indices behind an expression; a parenthesis or bracket on a new line begins
something else. -/
def suffixes : Nat → Expr → Reader Expr
  | 0, _ => unexpected .expression
  | fuel + 1, head => do
    let c ← get
    match c.head? with
    | some (.symbol .dot) =>
      skip
      let property ← name "property name"
      suffixes fuel (.member head property)
    | some (.symbol .openParen) =>
      if c.onSameLine then
        skip
        if ← eat (.symbol .closeParen) then suffixes fuel (.call head [])
        else
          let args ← callArguments fuel
          suffixes fuel (.call head args)
      else return head
    | some (.symbol .openBracket) =>
      if c.onSameLine then
        skip
        let index ← expressionAt fuel 1
        expect (.symbol .closeBracket)
        suffixes fuel (.index head index)
      else return head
    | _ => return head

/-- Arguments up to the closing parenthesis. -/
def callArguments : Nat → Reader (List Expr)
  | 0 => unexpected .expression
  | fuel + 1 => do
    let first ← expressionAt fuel 1
    if ← eat (.symbol .closeParen) then return [first]
    expect (.symbol .comma)
    return first :: (← callArguments fuel)

/-- Items of an array up to its bracket, which a comma may stand before. -/
def arrayItems : Nat → Reader (List Expr)
  | 0 => unexpected .expression
  | fuel + 1 => do
    if (← get).head? = some (.symbol .closeBracket) then return []
    let first ← expressionAt fuel 1
    if ← eat (.symbol .comma) then return first :: (← arrayItems fuel)
    else return [first]

/-- A literal, a name, a function, or an expression or array in its brackets. -/
def primary : Nat → Reader Expr
  | 0 => unexpected .expression
  | fuel + 1 => do
    let c ← get
    match c.head? with
    | some (.number x) =>
      skip
      return .number x
    | some (.string raw) =>
      skip
      match literal raw c.line with
      | .ok e => return e
      | .error e => fail e
    | some (.keyword .trueKw) =>
      skip
      return .bool true
    | some (.keyword .falseKw) =>
      skip
      return .bool false
    | some (.keyword .nilKw) =>
      skip
      return .nil
    | some (.name s) =>
      skip
      if ← eat (.symbol .arrow) then lambdaBody fuel [s]
      else return .ident s
    | some (.keyword .fnKw) =>
      skip
      let ps ← params
      discard <| eat (.symbol .arrow)
      lambdaBody fuel ps
    | some (.symbol .openParen) =>
      if arrowFollows true (c.rest.drop 1) then
        let ps ← params
        expect (.symbol .arrow)
        lambdaBody fuel ps
      else
        skip
        let e ← expressionAt fuel 1
        expect (.symbol .closeParen)
        return e
    | some (.symbol .openBracket) =>
      skip
      let items ← arrayItems fuel
      expect (.symbol .closeBracket)
      return .array items
    | _ => unexpected .expression

/-- The body of a function without a name: a block, or an expression whose value it returns. -/
def lambdaBody : Nat → List String → Reader Expr
  | 0, _ => unexpected .expression
  | fuel + 1, ps => do
    if (← get).head? = some (.symbol .openBrace) then
      return .lambda (.mk none ps (← block fuel))
    else return .lambda (.mk none ps [.return (some (← expressionAt fuel 1))])

/-- Statements between an opening brace and what closes it. -/
def block : Nat → Reader (List Stmt)
  | 0 => unexpected .expression
  | fuel + 1 => do
    let opened := (← get).line
    expect (.symbol .openBrace)
    blockRest fuel opened

/-- The rest of a block that was opened on a line. -/
def blockRest : Nat → Nat → Reader (List Stmt)
  | 0, _ => unexpected .expression
  | fuel + 1, opened => do
    let c ← get
    match c.head? with
    | none => fail (.unterminatedBlock opened c.line)
    | some t =>
      if t.closesBlock then
        skip
        return []
      else if t = .symbol .semicolon then
        skip
        blockRest fuel opened
      else
        let first ← statement fuel
        return first :: (← blockRest fuel opened)

/-- One statement. -/
def statement : Nat → Reader Stmt
  | 0 => unexpected .expression
  | fuel + 1 => do
    let c ← get
    match c.head? with
    | some (.keyword .letKw) =>
      skip
      declaration fuel false
    | some (.keyword .constKw) =>
      skip
      declaration fuel true
    | some (.keyword .fnKw) =>
      match c.second? with
      | some (.name s) =>
        skip
        skip
        let ps ← params
        return .function (.mk (some s) ps (← block fuel))
      | _ => expressionStatement fuel
    | some (.keyword .ifKw) =>
      skip
      let condition ← expressionAt fuel 1
      let body ← block fuel
      let (branches, otherwise) ← moreBranches fuel
      return .cond (.mk condition body :: branches) otherwise
    | some (.keyword .forKw) =>
      skip
      let var ← name "loop variable"
      expect (.keyword .inKw)
      let first ← expressionAt fuel 1
      if ← eat (.symbol .dotDot) then
        let stop ← expressionAt fuel 1
        return .forRange var first stop (← block fuel)
      else return .forEach var first (← block fuel)
    | some (.keyword .whileKw) =>
      skip
      let condition ← expressionAt fuel 1
      return .while condition (← block fuel)
    | some (.keyword .tryKw) =>
      skip
      let body ← block fuel
      expect (.keyword .catchKw)
      return .try body (← block fuel)
    | some (.keyword .returnKw) =>
      skip
      let c ← get
      if c.onSameLine && c.head?.any Token.startsExpression then
        return .return (some (← expressionAt fuel 1))
      else return .return none
    | some (.keyword .throwKw) =>
      skip
      return .throw (← expressionAt fuel 1)
    | some (.keyword .breakKw) =>
      skip
      return .break
    | some (.keyword .continueKw) =>
      skip
      return .continue
    | some (.keyword .awaitKw) =>
      skip
      statement fuel
    | some (.name word) =>
      if isCommandWord word then command fuel word else expressionStatement fuel
    | _ => expressionStatement fuel

/-- A name and its value, if it is given one. -/
def declaration : Nat → Bool → Reader Stmt
  | 0, _ => unexpected .expression
  | fuel + 1, constant => do
    let var ← name "variable name"
    if ← eat (.symbol .assign) then
      return .declare constant var (some (← expressionAt fuel 1))
    else return .declare constant var none

/-- The branches behind the first of a condition. -/
def moreBranches : Nat → Reader (List Branch × Option (List Stmt))
  | 0 => unexpected .expression
  | fuel + 1 => do
    let c ← get
    let branch : Reader (List Branch × Option (List Stmt)) := do
      let condition ← expressionAt fuel 1
      let body ← block fuel
      let (branches, otherwise) ← moreBranches fuel
      return (.mk condition body :: branches, otherwise)
    match c.head? with
    | some (.keyword .elifKw) =>
      skip
      branch
    | some (.keyword .elseKw) =>
      skip
      if c.second? = some (.keyword .ifKw) then
        skip
        branch
      else return ([], some (← block fuel))
    | _ => return ([], none)

/-- A command word: a call of what follows on its line, or a name like any other. -/
def command : Nat → String → Reader Stmt
  | 0, _ => unexpected .expression
  | fuel + 1, word => do
    let start ← get
    skip
    let c ← get
    match c.head? with
    | none => return .expr (.callNamed word [])
    | some t =>
      if !c.onSameLine || t.closesBlock || t = .symbol .semicolon then
        return .expr (.callNamed word [])
      else if t.startsExpression && t ≠ .symbol .openParen && t ≠ .symbol .openBracket then
        let args ← commandArguments fuel
        return .expr (.callNamed word args)
      else
        set start
        expressionStatement fuel

/-- Expressions with commas between them. -/
def commandArguments : Nat → Reader (List Expr)
  | 0 => unexpected .expression
  | fuel + 1 => do
    let first ← expressionAt fuel 1
    if ← eat (.symbol .comma) then return first :: (← commandArguments fuel)
    else return [first]

/-- An expression, or an assignment to one. -/
def expressionStatement : Nat → Reader Stmt
  | 0 => unexpected .expression
  | fuel + 1 => do
    let line := (← get).line
    let e ← expressionAt fuel 1
    if ← eat (.symbol .assign) then
      if e.isTarget then return .assign e (← expressionAt fuel 1)
      else fail (.invalidTarget line)
    else return .expr e

end

/-- Statements up to the end of the tokens. -/
def programRest (depth : Nat) : Nat → Reader Program
  | 0 => return []
  | fuel + 1 => do
    match (← get).head? with
    | none => return []
    | some t =>
      if t = .symbol .semicolon then
        skip
        programRest depth fuel
      else if t.closesBlock then unexpected .noOpenBlock
      else
        let first ← statement literal depth
        return first :: (← programRest depth fuel)

/-- A fuel that reading some tokens cannot use up. -/
def enoughFor (tokens : List Located) : Nat :=
  20 * (tokens.length + 2)

/-- The program that tokens write. -/
def programOf (tokens : List Located) : Except SyntaxError Program :=
  (programRest literal (enoughFor tokens) (tokens.length + 1)).run' (.ofTokens tokens)

/-- The single expression that tokens write. -/
def expressionOf (tokens : List Located) : Except SyntaxError Expr :=
  (do
    let e ← expressionAt literal (enoughFor tokens) 1
    expectEnd
    return e : Reader Expr).run' (.ofTokens tokens)

/-- The expressions, with commas between them, that tokens write. -/
def argumentsOf (tokens : List Located) : Except SyntaxError (List Expr) :=
  if tokens.isEmpty then .ok []
  else
    (do
      let args ← commandArguments literal (enoughFor tokens)
      expectEnd
      return args : Reader (List Expr)).run' (.ofTokens tokens)

end

/-- Takes a literal as its text. -/
def plainLiteral : LiteralReader := fun raw _ =>
  .ok (.str (.ofList (unescape raw.toList)))

/-- The parts of a literal that has been cut; `pending` is text whose escapes are still to be
resolved. -/
def templateParts (line : Nat) :
    List Char → List Segment → Except SyntaxError (List TemplatePart)
  | pending, [] => .ok (if pending.isEmpty then [] else [.text (.ofList (unescape pending))])
  | pending, .text raw :: rest => templateParts line (pending ++ raw) rest
  | _, .nested :: _ => .error (.nestedBraces line)
  | pending, .code source :: rest =>
    match tokenize source >>= expressionOf plainLiteral with
    | .error cause => .error (.inInterpolation (.ofList source) cause line)
    | .ok e => do
      let parts ← templateParts line [] rest
      return (if pending.isEmpty then [] else [.text (.ofList (unescape pending))]) ++
        .expr e :: parts

/-- Reads the expressions in the braces of a literal; without any the literal is a plain text. -/
def templateLiteral : LiteralReader := fun raw line => do
  match ← templateParts line [] (segments raw.toList) with
  | [] => return .str ""
  | [.text s] => return .str s
  | parts => return .template parts

/-- The literals of a source, with or without expressions in braces. -/
def literalReader (interpolated : Bool) : LiteralReader :=
  if interpolated then templateLiteral else plainLiteral

/-- The program of a source in the full language. -/
def parseProgram (source : List Char) (interpolated : Bool) :
    Except SyntaxError Program := do
  programOf (literalReader interpolated) (← tokenize source)

/-- The expression that a whole source writes. -/
def parseExpression (source : List Char) (interpolated : Bool) : Except SyntaxError Expr := do
  expressionOf (literalReader interpolated) (← tokenize source)

/-- The expressions of a source, without expressions in the braces of their literals. -/
def parseArguments (source : List Char) : Except SyntaxError (List Expr) := do
  argumentsOf plainLiteral (← tokenize source)

end ScriptedNotes.Script
