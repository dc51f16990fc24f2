/-!
The settings of a workspace.
-/

namespace ScriptedNotes

structure WorkspaceSettings where
  /-- What a new file gets behind its name when the name has no point. -/
  defaultExtension : String := "mne"
  /-- The folders that are not listed. -/
  skippedFolders : List String := ["node_modules", "target"]
  /-- How deep the listing goes; the workspace itself has depth zero. -/
  maxDepth : Nat := 10
  deriving DecidableEq, Repr

end ScriptedNotes
