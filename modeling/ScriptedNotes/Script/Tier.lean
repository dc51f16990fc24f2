import ScriptedNotes.Text.Blank
import ScriptedNotes.Text.Search

/-!
The three dialects of scripts and how a source is told to be in one of them.
-/

namespace ScriptedNotes.Script

open Text

inductive Tier where
  /-- Blocks that name a task and its arguments. -/
  | taskDefinition
  /-- One command a line. -/
  | simpleCommand
  /-- The full language. -/
  | advanced
  deriving DecidableEq, Repr

def Tier.name : Tier → String
  | .taskDefinition => "task_definition"
  | .simpleCommand => "simple_command"
  | .advanced => "advanced"

/-- Whether a word stands in a text by itself; `inWord` holds behind a letter, digit or
underscore. -/
def mentions (word : List Char) (inWord : Bool) : List Char → Bool
  | [] => false
  | c :: s =>
    let here := match after? word (c :: s) with
      | some rest => !inWord && !rest.head?.any isWord
      | none => false
    here || mentions word (isWord c) s

/-- The dialect of a source without comments. The word `task` makes it a list of tasks; the full
language needs the word `function` or an arrow. -/
def Tier.ofSource (source : List Char) : Tier :=
  if mentions "task".toList false source then .taskDefinition
  else if mentions "function".toList false source || contains ['=', '>'] source then .advanced
  else .simpleCommand

end ScriptedNotes.Script
