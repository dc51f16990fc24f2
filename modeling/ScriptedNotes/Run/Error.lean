/-!
Why a script stops before its end.
-/

namespace ScriptedNotes.Run

inductive Error where
  /-- A `throw`, or a step that makes no sense. -/
  | thrown (message : String)
  /-- A call that could not be carried out. -/
  | storage (message : String)
  | taskNotFound (name : String)
  deriving DecidableEq, Repr

def Error.message : Error → String
  | .thrown message => message
  | .storage message => message
  | .taskNotFound name => "Task \"" ++ name ++ "\" not found"

end ScriptedNotes.Run
