import ScriptedNotes.Run.Value

/-!
The files and folders that scripts work on. A call that is carried out may still be turned down,
which its outcome says; a call that cannot be carried out at all is a failure with its causes.
-/

namespace ScriptedNotes.Run

/-- A change of the files or folders. -/
inductive Change where
  | createFile (path content : String)
  | deleteFile (path : String)
  | writeFile (path content : String)
  | createDirectory (path : String)
  | deleteDirectory (path : String)
  deriving DecidableEq, Repr

/-- How a change that was carried out came out. -/
inductive Outcome where
  | success
  | alreadyThere
  | rejected (message : String)
  deriving DecidableEq, Repr

/-- What a script sees of an outcome. -/
def Outcome.toValue : Outcome → Value
  | .success => .object [("status", .str "success")]
  | .alreadyThere => .object [("status", .str "exists")]
  | .rejected message => .object [("message", .str message), ("status", .str "error")]

/-- Why a call could not be carried out, the outermost cause first. -/
structure Failure where
  causes : List String
  deriving DecidableEq, Repr

/-- All causes in one line. -/
def Failure.message (f : Failure) : String :=
  ": ".intercalate f.causes

/-- How the calls of scripts are carried out on a store of type `σ`. -/
structure Backend (σ : Type) where
  change : Change → σ → Except Failure Outcome × σ
  /-- The content of a file; a missing file is empty. -/
  read : String → σ → Except Failure String × σ

/-- A store that holds nothing and carries out every call. -/
def Backend.willing : Backend Unit where
  change _ _ := (.ok .success, ())
  read _ _ := (.ok "", ())

end ScriptedNotes.Run
