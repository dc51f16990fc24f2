import ScriptedNotes.Script.Command
import ScriptedNotes.Script.Comment
import ScriptedNotes.Script.Placement
import ScriptedNotes.Script.TaskBlock
import ScriptedNotes.Script.Tier

/-!
From a source to a script that can run: comments are taken out, the dialect is chosen, its reader
makes a program, and the control flow of the program is checked.
-/

namespace ScriptedNotes.Script

/-- A script that can run: its program, and the dialect that it was written in. -/
structure Compiled where
  tier : Tier
  program : Program

/-- The program of a source of a dialect, without comments. -/
def programIn (tier : Tier) (source : List Char) : Except SyntaxError Program :=
  match tier with
  | .taskDefinition => taskBlocks source
  | .simpleCommand => commands source
  | .advanced => parseProgram source true

/-- Reads, sorts and checks a source. -/
def compile (source : List Char) : Except SyntaxError Compiled := do
  let source := stripComments source
  let tier := Tier.ofSource source
  let program ← programIn tier source
  placedStmts {} program
  return ⟨tier, program⟩

end ScriptedNotes.Script
