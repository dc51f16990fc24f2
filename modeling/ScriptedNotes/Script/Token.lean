import ScriptedNotes.Number.Notation

/-!
The tokens of the script language: keywords, symbols, numbers, strings and names. A string keeps its
escapes as they are written; what they mean is settled when the literal is read.
-/

namespace ScriptedNotes.Script

inductive Keyword where
  | letKw
  | constKw
  | fnKw
  | returnKw
  | ifKw
  | elifKw
  | elseKw
  | forKw
  | inKw
  | whileKw
  | tryKw
  | catchKw
  | throwKw
  | breakKw
  | continueKw
  | awaitKw
  | endKw
  | trueKw
  | falseKw
  | nilKw
  deriving DecidableEq, Repr

def Keyword.name : Keyword → String
  | .letKw => "let"
  | .constKw => "const"
  | .fnKw => "fn"
  | .returnKw => "return"
  | .ifKw => "if"
  | .elifKw => "elif"
  | .elseKw => "else"
  | .forKw => "for"
  | .inKw => "in"
  | .whileKw => "while"
  | .tryKw => "try"
  | .catchKw => "catch"
  | .throwKw => "throw"
  | .breakKw => "break"
  | .continueKw => "continue"
  | .awaitKw => "await"
  | .endKw => "end"
  | .trueKw => "true"
  | .falseKw => "false"
  | .nilKw => "nil"

inductive Symbol where
  | openParen
  | closeParen
  | openBrace
  | closeBrace
  | openBracket
  | closeBracket
  | comma
  | semicolon
  | colon
  | dot
  | dotDot
  | arrow
  | assign
  | eq
  | notEq
  | lt
  | le
  | gt
  | ge
  | plus
  | minus
  | star
  | slash
  | percent
  | bang
  | and
  | or
  deriving DecidableEq, Repr

/-- The spelling that messages use. -/
def Symbol.name : Symbol → String
  | .openParen => "("
  | .closeParen => ")"
  | .openBrace => "\x7b"
  | .closeBrace => "\x7d"
  | .openBracket => "["
  | .closeBracket => "]"
  | .comma => ","
  | .semicolon => ";"
  | .colon => ":"
  | .dot => "."
  | .dotDot => ".."
  | .arrow => "=>"
  | .assign => "="
  | .eq => "=="
  | .notEq => "!="
  | .lt => "<"
  | .le => "<="
  | .gt => ">"
  | .ge => ">="
  | .plus => "+"
  | .minus => "-"
  | .star => "*"
  | .slash => "/"
  | .percent => "%"
  | .bang => "!"
  | .and => "&&"
  | .or => "||"

inductive Token where
  | keyword (k : Keyword)
  | symbol (s : Symbol)
  | number (x : Float)
  /-- A string without its quotes, escapes as written. -/
  | string (raw : String)
  | name (s : String)
  deriving DecidableEq

namespace Token

/-- The token as messages show it. -/
def display : Token → String
  | .keyword k => "'" ++ k.name ++ "'"
  | .symbol s => "'" ++ s.name ++ "'"
  | .number x => "number " ++ Number.literal x
  | .string raw => "string \"" ++ raw ++ "\""
  | .name s => "'" ++ s ++ "'"

/-- Whether an expression can begin with the token. -/
def startsExpression : Token → Bool
  | .number _ | .string _ | .name _ => true
  | .keyword .trueKw | .keyword .falseKw | .keyword .nilKw => true
  | .keyword .fnKw | .keyword .awaitKw => true
  | .symbol .openParen | .symbol .openBracket | .symbol .minus | .symbol .bang => true
  | _ => false

/-- Whether the token closes a block. -/
def closesBlock : Token → Bool
  | .symbol .closeBrace | .keyword .endKw => true
  | _ => false

end Token

/-- A token in its source: the bytes that it covers and its line, counted from one. -/
structure Located where
  token : Token
  start : Nat
  stop : Nat
  line : Nat
  deriving DecidableEq

end ScriptedNotes.Script
