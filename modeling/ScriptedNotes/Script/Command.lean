import ScriptedNotes.Script.Grammar

/-!
The dialect of commands: each line creates or deletes a file or folder or prints something. Lines
that begin with any other word are passed over.
-/

namespace ScriptedNotes.Script

open Text

/-- The first word of a line and what follows it. -/
def splitWord (line : List Char) : List Char × List Char :=
  (line.takeWhile fun c => !isBlank c, trim (line.dropWhile fun c => !isBlank c))

/-- The function behind `create` and `delete`; a point in the path makes it a file. -/
def storageCall (create : Bool) (path : List Char) : String :=
  match create, path.contains '.' with
  | true, true => "createFile"
  | true, false => "createDirectory"
  | false, true => "deleteFile"
  | false, false => "deleteDirectory"

/-- The statement of line `n`, if it is a command. -/
def commandOf (n : Nat) (line : List Char) : Except SyntaxError (Option Stmt) :=
  let (word, rest) := splitWord (trim line)
  let onStorage := fun (create : Bool) (word : String) =>
    if rest.isEmpty then .error (.missingPath word n)
    else .ok (some (.expr (.callNamed (storageCall create rest) [.str (.ofList rest)])))
  if word = "create".toList then onStorage true "create"
  else if word = "delete".toList then onStorage false "delete"
  else if word = "print".toList then
    match parseArguments rest with
    | .ok args => .ok (some (.expr (.callNamed "print" args)))
    | .error cause => .error (.inPrint n cause)
  else .ok none

/-- The statements of lines that begin with number `n`. -/
def commandsFrom (n : Nat) : List (List Char) → Except SyntaxError Program
  | [] => .ok []
  | line :: rest => do
    let here ← commandOf n line
    return here.toList ++ (← commandsFrom (n + 1) rest)

/-- The program of a source of commands. -/
def commands (source : List Char) : Except SyntaxError Program :=
  commandsFrom 1 (lines source)

end ScriptedNotes.Script
