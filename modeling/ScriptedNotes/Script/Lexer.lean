import ScriptedNotes.Number.Nearest
import ScriptedNotes.Script.SyntaxError
import ScriptedNotes.Text.Blank
import ScriptedNotes.Text.Search

/-!
Cutting a source into tokens. At each place the longest lexeme is taken; gaps are runs of blanks and
comments, which begin with two dashes or two slashes and end with their line.
-/

namespace ScriptedNotes.Script

open Text

/-- The blanks between tokens. -/
def isGap (c : Char) : Bool :=
  c == ' ' || c == '\t' || c == '\r' || c == '\n' || c == '\x0c'

def startsName (c : Char) : Bool :=
  c.isAlpha || c == '_'

/-- What the source begins with. -/
inductive Lexeme where
  | gap
  | token (t : Token)

/-- The token of a word: a keyword, one of the spelled operators, or a name. -/
def wordToken (word : String) : Token :=
  match word with
  | "let" => .keyword .letKw
  | "const" => .keyword .constKw
  | "fn" | "function" => .keyword .fnKw
  | "return" => .keyword .returnKw
  | "if" => .keyword .ifKw
  | "elif" => .keyword .elifKw
  | "else" => .keyword .elseKw
  | "for" => .keyword .forKw
  | "in" => .keyword .inKw
  | "while" => .keyword .whileKw
  | "try" => .keyword .tryKw
  | "catch" => .keyword .catchKw
  | "throw" => .keyword .throwKw
  | "break" => .keyword .breakKw
  | "continue" => .keyword .continueKw
  | "await" => .keyword .awaitKw
  | "end" => .keyword .endKw
  | "true" => .keyword .trueKw
  | "false" => .keyword .falseKw
  | "nil" | "null" => .keyword .nilKw
  | "and" => .symbol .and
  | "or" => .symbol .or
  | _ => .name word

/-- The spellings of the symbols, each before its own beginnings. -/
def symbolTable : List (List Char × Symbol) :=
  [(['=', '=', '='], .eq), (['=', '='], .eq), (['=', '>'], .arrow), (['='], .assign),
    (['!', '=', '='], .notEq), (['!', '='], .notEq), (['!'], .bang),
    (['<', '='], .le), (['<'], .lt), (['>', '='], .ge), (['>'], .gt),
    (['&', '&'], .and), (['|', '|'], .or), (['.', '.'], .dotDot), (['.'], .dot),
    (['('], .openParen), ([')'], .closeParen), (['{'], .openBrace), (['}'], .closeBrace),
    (['['], .openBracket), ([']'], .closeBracket), ([','], .comma), ([';'], .semicolon),
    ([':'], .colon), (['+'], .plus), (['-'], .minus), (['*'], .star), (['/'], .slash),
    (['%'], .percent)]

/-- The symbol that a text begins with. -/
def symbol? (s : List Char) : Option (Symbol × List Char) :=
  symbolTable.findSome? fun (spelling, symbol) =>
    (after? spelling s).map fun rest => (symbol, rest)

/-- The rest of a string behind its opening quote: what it holds, and the text behind the closing
quote. A backslash keeps the character after it from ending the string; a line feed ends none. -/
def stringRest (quote : Char) : List Char → Option (List Char × List Char)
  | [] => none
  | '\\' :: c :: s =>
    if c = '\n' then none
    else (stringRest quote s).map fun (raw, rest) => ('\\' :: c :: raw, rest)
  | c :: s =>
    if c = quote then some ([], s)
    else if c = '\\' ∨ c = '\n' then none
    else (stringRest quote s).map fun (raw, rest) => (c :: raw, rest)

/-- The digits of a number and of the fraction behind its point, if a digit follows the point. -/
def numberParts (s : List Char) : List Char × List Char × List Char :=
  let units := s.takeWhile Char.isDigit
  match s.dropWhile Char.isDigit with
  | '.' :: rest =>
    let places := rest.takeWhile Char.isDigit
    if places.isEmpty then (units, [], '.' :: rest)
    else (units, places, rest.dropWhile Char.isDigit)
  | rest => (units, [], rest)

/-- The lexeme that a text begins with, and the text behind it. -/
def lexeme? (s : List Char) : Option (Lexeme × List Char) :=
  match s with
  | [] => none
  | '-' :: '-' :: rest => some (.gap, rest.dropWhile (· ≠ '\n'))
  | '/' :: '/' :: rest => some (.gap, rest.dropWhile (· ≠ '\n'))
  | c :: rest =>
    if isGap c then some (.gap, rest.dropWhile isGap)
    else if startsName c then
      some (.token (wordToken (.ofList (s.takeWhile isWord))), s.dropWhile isWord)
    else if c.isDigit then
      let (units, places, rest) := numberParts s
      let x := Number.nearest false (Number.digitsValue (units ++ places)) (-(places.length : Int))
      some (.token (.number x), rest)
    else if c = '"' ∨ c = '\'' then
      (stringRest c rest).map fun (raw, rest) => (.token (.string (.ofList raw)), rest)
    else (symbol? s).map fun (symbol, rest) => (.token (.symbol symbol), rest)

/-- How many bytes a text takes. -/
def byteSize (s : List Char) : Nat :=
  s.foldl (fun n c => n + c.utf8Size) 0

/-- How many line feeds a text holds. -/
def lineFeeds (s : List Char) : Nat :=
  s.count '\n'

/-- Why no lexeme begins with a character. -/
def stuckAt (c : Char) (line : Nat) : SyntaxError :=
  if c = '"' ∨ c = '\'' then .unterminatedString line else .unexpectedCharacter c line

/-- The tokens of a source that begins at byte `pos` on line `line`. -/
def tokenizeFrom (pos line : Nat) (s : List Char) : Except SyntaxError (List Located) :=
  match s with
  | [] => .ok []
  | c :: s' =>
    match lexeme? (c :: s') with
    | none => .error (stuckAt c line)
    | some (lexeme, rest) =>
      if rest.length < (c :: s').length then
        let covered := (c :: s').take ((c :: s').length - rest.length)
        let stop := pos + byteSize covered
        match lexeme, tokenizeFrom stop (line + lineFeeds covered) rest with
        | .gap, tokens => tokens
        | .token t, tokens => tokens.map (⟨t, pos, stop, line⟩ :: ·)
      else .error (stuckAt c line)
termination_by s.length
decreasing_by all_goals simp only [List.length_cons] at *; omega

/-- The tokens of a source. -/
def tokenize (source : List Char) : Except SyntaxError (List Located) :=
  tokenizeFrom 0 1 source

end ScriptedNotes.Script
