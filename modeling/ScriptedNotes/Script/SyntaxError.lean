import ScriptedNotes.Script.Token

/-!
Why a source is no script. A cause names what was found and what was looked for; its text is made
here and nowhere else.
-/

namespace ScriptedNotes.Script

/-- What the reader of a script looks for. -/
inductive Expectation where
  | token (t : Token)
  | name (role : String)
  | expression
  | endOfInput
  /-- A token that closes a block stands where none is open. -/
  | noOpenBlock

def Expectation.text : Expectation → String
  | .token t => "expected " ++ t.display
  | .name role => "expected " ++ role
  | .expression => "expected an expression"
  | .endOfInput => "expected end of input"
  | .noOpenBlock => "no block is open"

inductive SyntaxError where
  | unexpectedCharacter (c : Char) (line : Nat)
  | unterminatedString (line : Nat)
  /-- The token found, or the end of the input, instead of what was looked for. -/
  | unexpected (found : Option Token) (sought : Expectation) (line : Nat)
  | unterminatedBlock (opened line : Nat)
  | invalidTarget (line : Nat)
  | nestedBraces (line : Nat)
  | inInterpolation (code : String) (cause : SyntaxError) (line : Nat)
  | inTask (task : String) (cause : SyntaxError)
  | inPrint (line : Nat) (cause : SyntaxError)
  | missingPath (command : String) (line : Nat)
  | strayReturn
  | strayBreak
  | strayContinue

namespace SyntaxError

/-- Adds the line to a text. -/
def atLine (line : Nat) (text : String) : String :=
  text ++ " (line " ++ toString line ++ ")"

def reason : SyntaxError → String
  | unexpectedCharacter c line => atLine line ("Unexpected character '" ++ c.toString ++ "'")
  | unterminatedString line => atLine line "Unterminated string literal"
  | unexpected (some t) sought line =>
    atLine line ("Unexpected " ++ t.display ++ ", " ++ sought.text)
  | unexpected none sought line => atLine line ("Unexpected end of input, " ++ sought.text)
  | unterminatedBlock opened line =>
    atLine line ("Unterminated block opened on line " ++ toString opened)
  | invalidTarget line => atLine line "Invalid assignment target"
  | nestedBraces line =>
    atLine line "Nested braces inside string interpolation are not supported"
  | inInterpolation code cause line =>
    atLine line ("in interpolation \x7b" ++ code ++ "\x7d: " ++ cause.reason)
  | inTask task cause => "task \"" ++ task ++ "\": " ++ cause.reason
  | inPrint line cause => "print on line " ++ toString line ++ ": " ++ cause.reason
  | missingPath command line => atLine line (command ++ " expects a path")
  | strayReturn => "'return' outside of a function"
  | strayBreak => "'break' outside of a loop"
  | strayContinue => "'continue' outside of a loop"

/-- The text that the reader of a note sees. -/
def message (e : SyntaxError) : String :=
  "Invalid automation syntax: " ++ e.reason

end SyntaxError

end ScriptedNotes.Script
