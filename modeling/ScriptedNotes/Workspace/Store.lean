import ScriptedNotes.Disk.Effect
import ScriptedNotes.Run.Storage
import ScriptedNotes.Text.Blank
import ScriptedNotes.Workspace.FileTree

/-!
The files and folders below one folder of a disk. Paths are taken from that folder, and one that
could lead out of it is refused before the disk is touched. A call that the state of the disk turns
down has an outcome of its own; a call that the disk does not carry out is an error.
-/

namespace ScriptedNotes

open Run (Outcome Change Failure)

/-- A folder of a disk with its settings and its last listing. -/
structure Workspace where
  root : Path
  settings : WorkspaceSettings
  tree : FileTree

/-- Why a call came to nothing. -/
inductive WorkspaceError where
  | emptyPath
  /-- The path could lead out of the workspace. -/
  | outside (path : String)
  /-- The new name of a file holds a separator. -/
  | separator (name : String)
  | disk (e : DiskError)
  deriving DecidableEq, Repr

/-- The causes, the outermost first. -/
def WorkspaceError.causes : WorkspaceError → List String
  | .emptyPath => ["Empty path"]
  | .outside path => ["Path must stay inside the workspace: " ++ path]
  | .separator name => ["New name must not contain a path separator: " ++ name]
  | .disk e => e.causes

/-- Work in a workspace. -/
abbrev WorkspaceWork (α : Type) := DiskWork WorkspaceError α

namespace Workspace

/-- Whether a part keeps a path inside the folder that it starts from. -/
def staysInside : Path.Part → Bool
  | .name _ | .here => true
  | .root | .up => false

/-- Where a path of the workspace leads. -/
def resolve (w : Workspace) (path : String) : Except WorkspaceError Path :=
  if Text.allBlank path.toList then .error .emptyPath
  else if (Path.mk path).parts.all staysInside then .ok (w.root.join ⟨path⟩)
  else .error (.outside path)

/-- A path with the default extension, unless its name has a point. -/
def withDefaultExtension (w : Workspace) (path : String) : String :=
  match (Path.mk path).fileName? with
  | some name =>
    if '.' ∈ name.toList then path else path ++ "." ++ w.settings.defaultExtension
  | none => path ++ "." ++ w.settings.defaultExtension

/-- Disk work with what it is done for. -/
def toward {α : Type} (purpose : Purpose) (work : DiskWork Fault α) : WorkspaceWork α :=
  ExceptT.adapt .disk (DiskWork.toward purpose work)

/-- Makes the folder of a path. -/
def makeParent (target : Path) : WorkspaceWork Unit :=
  ExceptT.adapt .disk (DiskWork.makeParent target)

/-- What stands at a path. -/
def nodeAt? (target : Path) : WorkspaceWork (Option Node) :=
  DiskWork.ask fun d => (d.locate target).toOption.map (·.2)

section

variable (w : Workspace)

/-- Work at the place where a path of the workspace leads. -/
def within {α : Type} (path : String) (work : Path → WorkspaceWork α) : WorkspaceWork α :=
  match w.resolve path with
  | .ok target => work target
  | .error e => throw e

/-- Writes a file with the default extension, and the folders that lead to it. -/
def createFile (path content : String) : WorkspaceWork Outcome :=
  w.within (w.withDefaultExtension path) fun target => do
    makeParent target
    toward (.createFile target) (DiskWork.change (·.writeText target content))
    return .success

/-- Replaces the content of a file, and makes the folders that lead to it. -/
def writeFile (path content : String) : WorkspaceWork Outcome :=
  w.within path fun target => do
    makeParent target
    toward (.replaceFile target) (DiskWork.replaceText target content)
    return .success

/-- The content of a file; a missing file is empty. -/
def read (path : String) : WorkspaceWork String :=
  w.within path fun target =>
    toward (.readFile target) (tryCatch (DiskWork.look (·.readText target)) fun
      | .notFound => pure ""
      | fault => throw fault)

def deleteFile (path : String) : WorkspaceWork Outcome :=
  w.within path fun target => do
    match ← nodeAt? target with
    | some (.file _) =>
      toward (.deleteFile target) (DiskWork.change (·.removeFile target))
      return .success
    | some (.folder _) => return .rejected "Not a file"
    | none => return .rejected "File not found"

/-- Makes a folder and the folders that lead to it. -/
def createDirectory (path : String) : WorkspaceWork Outcome :=
  w.within path fun target => do
    match ← nodeAt? target with
    | some (.folder _) => return .alreadyThere
    | some (.file _) => return .rejected "A file with that name exists"
    | none =>
      toward (.createFolder target) (DiskWork.makeFolders target)
      return .success

/-- Deletes a folder with all that is in it. -/
def deleteDirectory (path : String) : WorkspaceWork Outcome :=
  w.within path fun target => do
    match ← nodeAt? target with
    | some (.folder _) =>
      toward (.deleteFolder target) (DiskWork.removeTree target)
      return .success
    | some (.file _) => return .rejected "Not a directory"
    | none => return .rejected "Directory not found"

/-- Gives a file or a folder another name in the folder where it is; the name of a file gets the
default extension. -/
def rename (path newName : String) (isFile : Bool) : WorkspaceWork Outcome :=
  w.within path fun source => do
    if '/' ∈ newName.toList ∨ '\\' ∈ newName.toList then throw (.separator newName)
    let target := source.withFileName (if isFile then w.withDefaultExtension newName else newName)
    if (← nodeAt? source).isNone then return .rejected (path ++ " not found")
    if (← nodeAt? target).isSome then return .alreadyThere
    toward (.rename source target) (DiskWork.change (·.rename source target))
    return .success

end

/-- Lists a folder of the disk. -/
def list (settings : WorkspaceSettings) (folder : Path) : DiskWork DiskError FileTree :=
  DiskWork.toward (.listFolder folder) (DiskWork.look (FileTree.ofFolder settings folder))

/-- Opens the workspace of a folder, which is made if it is missing. -/
def openAt (root : Path) (settings : WorkspaceSettings) : DiskWork DiskError Workspace := do
  DiskWork.toward (.openWorkspace root) (DiskWork.makeFolders root)
  return ⟨root, settings, ← list settings root⟩

/-- The workspace with a fresh listing. -/
def refresh (w : Workspace) : DiskWork DiskError Workspace := do
  return { w with tree := ← list w.settings w.root }

/-- Whether a file is a draft that was left behind. -/
def isStray (name : String) : Bool :=
  (Path.splitName name).2 = some "tmp"

/-- Deletes the drafts that were left behind and counts them. -/
def removeStrays {ε : Type} (w : Workspace) : DiskWork ε Nat :=
  fun d =>
    let (count, d) := d.sweep w.root isStray
    (.ok count, d)

end Workspace

/-- A workspace on its disk. -/
structure Site where
  workspace : Workspace
  disk : Disk

namespace Site

/-- Does work of the workspace on the disk. -/
def work {ε α : Type} (causes : ε → List String) (job : Workspace → DiskWork ε α) (s : Site) :
    Except Failure α × Site :=
  let (result, disk) := job s.workspace s.disk
  (result.mapError fun e => ⟨causes e⟩, { s with disk })

/-- The change that a script asks for. -/
def perform (w : Workspace) : Change → WorkspaceWork Outcome
  | .createFile path content => w.createFile path content
  | .deleteFile path => w.deleteFile path
  | .writeFile path content => w.writeFile path content
  | .createDirectory path => w.createDirectory path
  | .deleteDirectory path => w.deleteDirectory path

/-- The calls of scripts, carried out in the workspace. -/
def backend : Run.Backend Site where
  change c := work WorkspaceError.causes (perform · c)
  read path := work WorkspaceError.causes (·.read path)

/-- Lists the workspace anew. -/
def refresh (s : Site) : Except Failure Unit × Site :=
  match s.workspace.refresh s.disk with
  | (.ok workspace, disk) => (.ok (), ⟨workspace, disk⟩)
  | (.error e, disk) => (.error ⟨e.causes⟩, { s with disk })

end Site

end ScriptedNotes
