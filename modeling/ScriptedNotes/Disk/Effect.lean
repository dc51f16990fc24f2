import ScriptedNotes.Disk.Basic

/-!
Work on a disk in several calls. When one of them fails the calls before it have had their effect,
so the disk is part of what comes out in either case.
-/

namespace ScriptedNotes

/-- Work that changes a disk and may fail. -/
abbrev DiskWork (ε α : Type) := ExceptT ε (StateM Disk) α

namespace DiskWork

variable {ε α : Type}

/-- A call that only looks. -/
def look (f : Disk → Except Fault α) : DiskWork Fault α :=
  fun d => (f d, d)

/-- A call that changes the disk or fails. -/
def change (f : Disk → Except Fault Disk) : DiskWork Fault Unit :=
  fun d =>
    match f d with
    | .ok d' => (.ok (), d')
    | .error fault => (.error fault, d)

/-- Asks the disk. -/
def ask (f : Disk → α) : DiskWork ε α :=
  fun d => (.ok (f d), d)

/-- Work with what it is done for. -/
def toward (purpose : Purpose) (work : DiskWork Fault α) : DiskWork DiskError α :=
  ExceptT.adapt (DiskError.mk purpose) work

/-- Makes a folder unless it is there. -/
def ensureFolder (p : Path) : DiskWork Fault Unit :=
  fun d =>
    match d.makeFolder p with
    | .ok d' => (.ok (), d')
    | .error .alreadyThere => (if d.hasFolder p then .ok () else .error .alreadyThere, d)
    | .error fault => (.error fault, d)

/-- Makes the folders of a list of paths of which each is the parent of the one before, beginning
with the first that can be made. -/
def makeChain : List Path → DiskWork Fault Unit
  | [] => pure ()
  | p :: parents =>
    tryCatch (ensureFolder p) fun
      | .notFound => do
        makeChain parents
        ensureFolder p
      | fault => throw fault

/-- Makes a folder and the folders that lead to it. -/
def makeFolders (p : Path) : DiskWork Fault Unit :=
  makeChain p.ancestors

/-- Makes the folder of a path and the folders that lead to it. -/
def makeParent (p : Path) : DiskWork DiskError Unit :=
  match p.parent? with
  | some parent => toward (.createParent parent) (makeFolders parent)
  | none => pure ()

/-- Takes a folder away with all that is in it. -/
def removeTree (p : Path) : DiskWork Fault Unit := do
  change (·.clearFolder p)
  change (·.removeFolder p)

/-- Where the new content of a file stands before it takes its place. -/
def draft (p : Path) : Path :=
  ⟨p.text ++ ".tmp"⟩

/-- Replaces the content of a file in one step, by way of a draft beside it. A draft that could not
take the place of the file is removed. -/
def replaceText (p : Path) (content : String) : DiskWork Fault Unit :=
  tryCatch
    (do
      change (·.writeText (draft p) content)
      change (·.rename (draft p) p))
    fun fault => do
      tryCatch (change (·.removeFile (draft p))) fun _ => pure ()
      throw fault

end DiskWork

end ScriptedNotes
