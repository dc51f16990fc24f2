import ScriptedNotes.Disk.Fault
import ScriptedNotes.Disk.Node

/-!
A disk and the calls that it takes. There are files and folders and nothing else, so a path leads to
at most one position: dots stay in a folder, two dots leave it, and every piece before the last has
to be a folder that exists. A call that changes the disk either does so or leaves it as it is.
-/

namespace ScriptedNotes

/-- Files and folders, and the folder from which relative paths start. -/
structure Disk where
  tree : Node
  current : Position := []

/-- How the last piece of a path names something in the folder before it. -/
inductive Ending where
  /-- A name, and whether slashes follow it. -/
  | name (s : String) (slashed : Bool)
  | dot
  | dots
  /-- The path is the root. -/
  | root
  deriving DecidableEq, Repr

/-- The longest name, in bytes. -/
def longestName : Nat := 255

/-- The longest path, in bytes. -/
def longestPath : Nat := 4095

namespace Disk

/-- The position to which pieces lead from another one. Each is looked for in a folder, but nothing
need stand where the last leads. -/
def follow (d : Disk) : Position → List (List Char) → Except Fault Position
  | position, [] => .ok position
  | position, piece :: rest =>
    match d.tree.at? position with
    | none => .error .notFound
    | some (.file _) => .error .notFolder
    | some (.folder _) =>
      if piece = [] ∨ piece = ['.'] then d.follow position rest
      else if piece = ['.', '.'] then d.follow position.dropLast rest
      else
        let name := String.ofList piece
        if longestName < name.utf8ByteSize then .error .nameTooLong
        else d.follow (position ++ [name]) rest

/-- What is wrong with a path on every disk. -/
def malformed? (p : Path) : Option Fault :=
  if '\x00' ∈ p.text.toList then some .nulInName
  else if p.text.isEmpty then some .notFound
  else if longestPath < p.text.utf8ByteSize then some .nameTooLong
  else none

/-- Where a path starts. -/
def start (d : Disk) (p : Path) : Position :=
  if p.isAbsolute then [] else d.current

/-- The position of what a path names, and what is there. -/
def locate (d : Disk) (p : Path) : Except Fault (Position × Node) :=
  match malformed? p with
  | some fault => .error fault
  | none => do
    let position ← d.follow (d.start p) p.pieces
    match d.tree.at? position with
    | some n => .ok (position, n)
    | none => .error .notFound

/-- The pieces up to the last that is not empty, and whether empty ones follow it. -/
def splitEnding (pieces : List (List Char)) : Option (List (List Char) × List Char × Bool) :=
  match pieces.reverse.dropWhile (·.isEmpty) with
  | [] => none
  | last :: before => some (before.reverse, last, pieces.getLast? = some [])

/-- The folder in which the last piece of a path is looked for, and that piece. -/
def target (d : Disk) (p : Path) : Except Fault (Position × Ending) :=
  match malformed? p with
  | some fault => .error fault
  | none =>
    match splitEnding p.pieces with
    | none => .ok ([], .root)
    | some (before, last, slashed) => do
      let folder ← d.follow (d.start p) (before ++ [['.']])
      if last = ['.'] then return (folder, .dot)
      else if last = ['.', '.'] then return (folder, .dots)
      else return (folder, .name (.ofList last) slashed)

/-- What a folder has under a name. -/
def entry? (d : Disk) (folder : Position) (name : String) : Except Fault (Option Node) :=
  if longestName < name.utf8ByteSize then .error .nameTooLong
  else .ok (d.tree.at? (folder ++ [name]))

/-! ### Looking -/

/-- Whether a path names something. -/
def has (d : Disk) (p : Path) : Bool :=
  (d.locate p).toOption.isSome

def hasFolder (d : Disk) (p : Path) : Bool :=
  match d.locate p with
  | .ok (_, .folder _) => true
  | _ => false

/-- The text of a file. -/
def readText (d : Disk) (p : Path) : Except Fault String := do
  match ← d.locate p with
  | (_, .folder _) => throw .isFolder
  | (_, .file (.text s)) => return s
  | (_, .file (.binary _)) => throw .notText

/-! ### Changing -/

/-- Puts a node into a folder. -/
def put (d : Disk) (folder : Position) (name : String) (node : Node) : Disk :=
  { d with tree := d.tree.update (.putEntry name node) folder }

/-- Takes a node out of a folder. -/
def erase (d : Disk) (folder : Position) (name : String) : Disk :=
  { d with tree := d.tree.update (.eraseEntry name) folder }

/-- Makes a folder in a folder that exists. -/
def makeFolder (d : Disk) (p : Path) : Except Fault Disk := do
  match ← d.target p with
  | (folder, .name s _) =>
    if (← d.entry? folder s).isSome then throw .alreadyThere
    else return d.put folder s (.folder [])
  | _ => throw .alreadyThere

/-- Writes a text over the file of a path, or makes the file in a folder that exists. -/
def writeText (d : Disk) (p : Path) (content : String) : Except Fault Disk := do
  match ← d.target p with
  | (folder, .name s false) =>
    match ← d.entry? folder s with
    | some (.folder _) => throw .isFolder
    | _ => return d.put folder s (.file (.text content))
  | _ => throw .isFolder

/-- Takes a file away. -/
def removeFile (d : Disk) (p : Path) : Except Fault Disk := do
  match ← d.target p with
  | (folder, .name s slashed) =>
    match ← d.entry? folder s with
    | none => throw .notFound
    | some (.folder _) => throw .isFolder
    | some (.file _) =>
      if slashed then throw .notFolder else return d.erase folder s
  | _ => throw .isFolder

/-- Takes an empty folder away. -/
def removeFolder (d : Disk) (p : Path) : Except Fault Disk := do
  match ← d.target p with
  | (folder, .name s _) =>
    match ← d.entry? folder s with
    | none => throw .notFound
    | some (.file _) => throw .notFolder
    | some (.folder (_ :: _)) => throw .notEmpty
    | some (.folder []) => return d.erase folder s
  | (_, .dot) => throw .invalid
  | (_, .dots) => throw .notEmpty
  | (_, .root) => throw .busy

/-- Takes away all that is in a folder. -/
def clearFolder (d : Disk) (p : Path) : Except Fault Disk := do
  match ← d.locate p with
  | (position, .folder _) => return { d with tree := d.tree.update (fun _ => .folder []) position }
  | (_, .file _) => throw .notFolder

/-- Takes away the files with a stray name below a folder, and counts them. -/
def sweep (d : Disk) (p : Path) (stray : String → Bool) : Nat × Disk :=
  match d.locate p with
  | .ok (position, n) =>
    let (count, n) := n.sweep stray
    (count, { d with tree := d.tree.update (fun _ => n) position })
  | .error _ => (0, d)

/-- What keeps a node from taking the place of another. -/
def blocked? : Node → Option Node → Option Fault
  | .folder _, some (.file _) => some .notFolder
  | .folder _, some (.folder (_ :: _)) => some .notEmpty
  | .file _, some (.folder _) => some .isFolder
  | _, _ => none

/-- Moves what stands at one path to another. A folder does not go into itself, and what it replaces
is a file for a file and an empty folder for a folder. -/
def rename (d : Disk) (old new : Path) : Except Fault Disk := do
  let (oldFolder, oldEnding) ← d.target old
  let (newFolder, newEnding) ← d.target new
  match oldEnding, newEnding with
  | .name oldName oldSlashed, .name newName newSlashed =>
    match ← d.entry? oldFolder oldName with
    | none => throw .notFound
    | some node =>
      let replaced ← d.entry? newFolder newName
      let source := oldFolder ++ [oldName]
      let goal := newFolder ++ [newName]
      if !node.isFolder && (oldSlashed || newSlashed) then throw .notFolder
      else if source = goal then return d
      else if source.isPrefixOf goal then throw .invalid
      else if goal.isPrefixOf source then throw .notEmpty
      else
        match blocked? node replaced with
        | some fault => throw fault
        | none => return (d.erase oldFolder oldName).put newFolder newName node
  | _, _ => throw .busy

end Disk

end ScriptedNotes
