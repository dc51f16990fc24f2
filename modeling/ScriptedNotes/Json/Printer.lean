import ScriptedNotes.Json.Basic
import ScriptedNotes.Number.Notation

/-!
Writing JSON text, either without any blanks or with one item a line and two blanks for each level.
-/

namespace ScriptedNotes.Json

def hexLetter (n : Nat) : Char :=
  Nat.digitChar n

/-- A character inside a string. -/
def escapeChar (c : Char) : List Char :=
  match c with
  | '"' => ['\\', '"']
  | '\\' => ['\\', '\\']
  | '\x08' => ['\\', 'b']
  | '\x0c' => ['\\', 'f']
  | '\n' => ['\\', 'n']
  | '\r' => ['\\', 'r']
  | '\t' => ['\\', 't']
  | _ =>
    if c.toNat < 32 then
      ['\\', 'u', '0', '0', hexLetter (c.toNat / 16), hexLetter (c.toNat % 16)]
    else [c]

/-- A text between quotes. -/
def quote (s : String) : String :=
  .ofList ('"' :: s.toList.flatMap escapeChar ++ ['"'])

mutual

/-- The text without blanks. -/
def compact : Json → String
  | .null => "null"
  | .bool b => if b then "true" else "false"
  | .whole n => toString n
  | .real x => Number.Layout.data.render x
  | .string s => quote s
  | .unreadable => "null"
  | .array items => "[" ++ compactItems items ++ "]"
  | .object fields => "\x7b" ++ compactFields fields ++ "\x7d"

def compactItems : List Json → String
  | [] => ""
  | [item] => compact item
  | item :: rest => compact item ++ "," ++ compactItems rest

def compactFields : List (String × Json) → String
  | [] => ""
  | [(name, item)] => quote name ++ ":" ++ compact item
  | (name, item) :: rest => quote name ++ ":" ++ compact item ++ "," ++ compactFields rest

end

/-- A new line at a level. -/
def newLine (level : Nat) : String :=
  .ofList ('\n' :: List.replicate (2 * level) ' ')

mutual

/-- The text in lines, for a value that stands at a level. -/
def prettyAt (level : Nat) : Json → String
  | .array (item :: rest) =>
    "[" ++ newLine (level + 1) ++ prettyItems (level + 1) (item :: rest) ++ newLine level ++ "]"
  | .object (field :: rest) =>
    "\x7b" ++ newLine (level + 1) ++ prettyFields (level + 1) (field :: rest) ++ newLine level ++
      "\x7d"
  | other => compact other

def prettyItems (level : Nat) : List Json → String
  | [] => ""
  | [item] => prettyAt level item
  | item :: rest => prettyAt level item ++ "," ++ newLine level ++ prettyItems level rest

def prettyFields (level : Nat) : List (String × Json) → String
  | [] => ""
  | [(name, item)] => quote name ++ ": " ++ prettyAt level item
  | (name, item) :: rest =>
    quote name ++ ": " ++ prettyAt level item ++ "," ++ newLine level ++ prettyFields level rest

end

/-- The text in lines. -/
def pretty (v : Json) : String :=
  prettyAt 0 v

end ScriptedNotes.Json
