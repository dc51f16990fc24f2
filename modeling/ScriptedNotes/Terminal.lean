/-!
The output of one script: lines of four kinds, in the order in which they were written.
-/

namespace ScriptedNotes

inductive LineKind where
  | info
  | error
  | success
  | system
  deriving DecidableEq, Repr

def LineKind.name : LineKind → String
  | .info => "info"
  | .error => "error"
  | .success => "success"
  | .system => "system"

structure Line where
  kind : LineKind
  text : String
  deriving DecidableEq, Repr

/-- The lines that are on show. -/
structure Terminal where
  lines : Array Line := #[]
  deriving DecidableEq, Repr

namespace Terminal

def push (t : Terminal) (line : Line) : Terminal :=
  ⟨t.lines.push line⟩

/-- The texts of the lines of one kind. -/
def textsOf (t : Terminal) (kind : LineKind) : List String :=
  (t.lines.toList.filter (·.kind == kind)).map (·.text)

end Terminal

end ScriptedNotes
