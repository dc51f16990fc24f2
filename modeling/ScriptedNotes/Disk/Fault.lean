import ScriptedNotes.Disk.Path

/-!
What can go wrong with a disk: the faults with the texts and numbers by which they are known, and
the purposes for which the disk was called.
-/

namespace ScriptedNotes

/-- Why the disk did not do what it was told. -/
inductive Fault where
  | notFound
  | busy
  | alreadyThere
  | notFolder
  | isFolder
  | invalid
  | nameTooLong
  | notEmpty
  /-- The path holds a NUL character. -/
  | nulInName
  /-- The content of a file is no text. -/
  | notText
  deriving DecidableEq, Repr

def Fault.message : Fault → String
  | .notFound => "No such file or directory (os error 2)"
  | .busy => "Device or resource busy (os error 16)"
  | .alreadyThere => "File exists (os error 17)"
  | .notFolder => "Not a directory (os error 20)"
  | .isFolder => "Is a directory (os error 21)"
  | .invalid => "Invalid argument (os error 22)"
  | .nameTooLong => "File name too long (os error 36)"
  | .notEmpty => "Directory not empty (os error 39)"
  | .nulInName => "file name contained an unexpected NUL byte"
  | .notText => "stream did not contain valid UTF-8"

/-- What the disk was called for. -/
inductive Purpose where
  | openWorkspace (root : Path)
  | listFolder (folder : Path)
  | createParent (parent : Path)
  | createFile (file : Path)
  | replaceFile (file : Path)
  | deleteFile (file : Path)
  | readFile (file : Path)
  | createFolder (folder : Path)
  | deleteFolder (folder : Path)
  | rename (old new : Path)
  | saveFile (file : Path)
  | readConfig (file : Path)
  | writeConfig (file : Path)
  deriving DecidableEq, Repr

/-- The words for a purpose that came to nothing. -/
def Purpose.failed : Purpose → String
  | .openWorkspace p => "Failed to create workspace: " ++ p.text
  | .listFolder p => "Failed to walk " ++ p.text
  | .createParent p => "Failed to create " ++ p.text
  | .createFile p => "Failed to create file: " ++ p.text
  | .replaceFile p => "Failed to write " ++ p.text
  | .deleteFile p => "Failed to delete file: " ++ p.text
  | .readFile p => "Failed to read file: " ++ p.text
  | .createFolder p => "Failed to create directory: " ++ p.text
  | .deleteFolder p => "Failed to delete directory: " ++ p.text
  | .rename p q => "Failed to rename " ++ p.text ++ " to " ++ q.text
  | .saveFile p => "Failed to save file: " ++ p.text
  | .readConfig p => "Failed to read config: " ++ p.text
  | .writeConfig p => "Failed to write config: " ++ p.text

/-- A fault that kept something from being done. -/
structure DiskError where
  purpose : Purpose
  fault : Fault
  deriving DecidableEq, Repr

/-- The causes of a failure, the outermost first. A listing names the path once more. -/
def DiskError.causes (e : DiskError) : List String :=
  match e.purpose with
  | .listFolder p =>
    [e.purpose.failed, "IO error for operation on " ++ p.text ++ ": " ++ e.fault.message,
      e.fault.message]
  | _ => [e.purpose.failed, e.fault.message]

end ScriptedNotes
