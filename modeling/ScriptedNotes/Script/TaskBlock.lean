import ScriptedNotes.Script.Grammar
import ScriptedNotes.Text.Scan

/-!
The dialect of tasks. A block names a task and lists its arguments as pairs of a key and a value;
the values are handed over in order, and the keys are for the reader only.
-/

namespace ScriptedNotes.Script

open Text

/-- A name in quotes of one kind. -/
def quotedName (quote : Char) : Pattern (List Char) := fun s => do
  cut [quote] (← after? [quote] s)

/-- The word `task`, a name in quotes, and all between the next braces. -/
def taskBlock : Pattern (List Char × List Char) := fun s => do
  let s ← after? "task".toList s
  guard (s.head?.any isSpace)
  let s := s.dropWhile isSpace
  let (name, s) ← quotedName '"' s <|> quotedName '\'' s
  let (body, s) ← cut ['}'] (← after? ['{'] (s.dropWhile isSpace))
  return ((name, body), s)

/-- The text behind the first colon that follows a key; `inKey` holds behind a character of one. -/
def argumentText? (inKey : Bool) : List Char → Option (List Char)
  | [] => none
  | c :: s =>
    if c = ':' ∧ inKey ∧ s ≠ [] then some (trim s) else argumentText? (isWord c) s

/-- The values of the lines of a block. -/
def blockArguments (name : List Char) : List (List Char) → Except SyntaxError (List Expr)
  | [] => .ok []
  | line :: rest =>
    match argumentText? false (trim line) with
    | none => blockArguments name rest
    | some text =>
      match parseArguments text with
      | .error cause => .error (.inTask (.ofList name) cause)
      | .ok args => do return args ++ (← blockArguments name rest)

/-- A block as the call that runs its task. -/
def taskCall (name body : List Char) : Except SyntaxError Stmt := do
  let args ← blockArguments name (lines body)
  return .expr (.callNamed "runTask" (.str (.ofList name) :: args))

/-- The program of a source of task blocks. -/
def taskBlocks (source : List Char) : Except SyntaxError Program :=
  (finds taskBlock source).mapM fun (name, body) => taskCall name body

end ScriptedNotes.Script
