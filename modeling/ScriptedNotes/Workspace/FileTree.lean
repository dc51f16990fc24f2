import ScriptedNotes.Disk.Basic
import ScriptedNotes.Text.Lower
import ScriptedNotes.Workspace.Settings

/-!
What is listed of a folder. A walk comes to its entries, each before what is in it; hidden entries,
the folders that the settings skip and all that is too deep are left out. The listing is put
together while the walk goes on; in each folder the folders come before the files, and both stand in
the order of their names without regard to case.
-/

namespace ScriptedNotes

/-- A file or a folder with its path and what is listed below it. -/
structure FileNode where
  name : String
  path : Path
  isFolder : Bool
  children : List FileNode := []
  deriving Inhabited

namespace FileNode

/-- A node that takes its name from its path. -/
def ofPath (path : Path) (isFolder : Bool) (children : List FileNode) : FileNode :=
  ⟨path.shownName, path, isFolder, children⟩

/-- The node with one more child behind the others. -/
def adopt (parent child : FileNode) : FileNode :=
  { parent with children := parent.children ++ [child] }

/-- Whether a node may stand before another one: folders come first, and nodes of one sort go by
their names in lower case. -/
def precedes (a b : FileNode) : Bool :=
  match a.isFolder, b.isFolder with
  | true, false => true
  | false, true => false
  | _, _ => !(Text.lower b.name.toList).lex (Text.lower a.name.toList) fun x y => x.val < y.val

mutual

/-- The node with the children of every folder in order. -/
def sorted : FileNode → FileNode
  | ⟨name, path, isFolder, children⟩ =>
    ⟨name, path, isFolder, (sortedEach children).mergeSort precedes⟩

def sortedEach : List FileNode → List FileNode
  | [] => []
  | n :: rest => sorted n :: sortedEach rest

end

mutual

/-- How many nodes are below one. -/
def size : FileNode → Nat
  | ⟨_, _, _, children⟩ => sizeEach children

def sizeEach : List FileNode → Nat
  | [] => 0
  | n :: rest => 1 + size n + sizeEach rest

end

mutual

/-- The first node with a path, from the top down and from left to right. -/
def find? (path : Path) : FileNode → Option FileNode
  | ⟨name, own, isFolder, children⟩ =>
    if own.same path then some ⟨name, own, isFolder, children⟩ else findAmong? path children

def findAmong? (path : Path) : List FileNode → Option FileNode
  | [] => none
  | n :: rest => (find? path n).or (findAmong? path rest)

end

end FileNode

/-- Whether an entry of a folder is listed. -/
def WorkspaceSettings.shows (s : WorkspaceSettings) (name : String) (node : Node) : Bool :=
  name.toList.head? ≠ some '.' && !(node.isFolder && s.skippedFolders.contains name)

/-- An entry that a walk comes to. -/
structure Visit where
  path : Path
  isFolder : Bool
  /-- How many folders the entry is in; the one that is walked counts, so this is not zero. -/
  depth : Nat

mutual

/-- The walk of what is below a node, which itself stands at a path and at a depth. -/
def Node.visits (s : WorkspaceSettings) (depth : Nat) (path : Path) : Node → List Visit
  | .file _ => []
  | .folder entries =>
    if depth < s.maxDepth then Node.entryVisits s (depth + 1) path entries else []

/-- The walk of the entries of a folder that are shown, in the order in which the folder has
them. -/
def Node.entryVisits (s : WorkspaceSettings) (depth : Nat) (folder : Path) :
    List (String × Node) → List Visit
  | [] => []
  | (name, node) :: rest =>
    if s.shows name node then
      ⟨folder.join ⟨name⟩, node.isFolder, depth⟩ ::
        (Node.visits s depth (folder.join ⟨name⟩) node ++ Node.entryVisits s depth folder rest)
    else Node.entryVisits s depth folder rest

end

/-- The folders that are open during a walk: the innermost with what has been listed in it, and
those around it from the inside out. The last of them is the folder that is walked, so there is
always one. -/
structure OpenFolders where
  innermost : FileNode
  around : List FileNode

namespace OpenFolders

/-- Closes the innermost of two or more folders into the one around it, as long as there are more of
them than an entry at a depth is in. -/
def closeFrom (depth : Nat) : FileNode → List FileNode → OpenFolders
  | innermost, [] => ⟨innermost, []⟩
  | innermost, parent :: around =>
    if depth < around.length + 2 then closeFrom depth (parent.adopt innermost) around
    else ⟨innermost, parent :: around⟩

/-- Closes the folders that an entry at a depth is not in. -/
def closeTo (o : OpenFolders) (depth : Nat) : OpenFolders :=
  closeFrom depth o.innermost o.around

/-- Lists an entry in the folder that it is in, and opens it if it is a folder. -/
def visit (o : OpenFolders) (v : Visit) : OpenFolders :=
  let o := o.closeTo v.depth
  if v.isFolder then ⟨.ofPath v.path true [], o.innermost :: o.around⟩
  else { o with innermost := o.innermost.adopt (.ofPath v.path false []) }

end OpenFolders

/-- The listing of a folder from the walk of its entries. -/
def FileNode.ofWalk (path : Path) (visits : List Visit) : FileNode :=
  let start : OpenFolders := ⟨.ofPath path true [], []⟩
  ((visits.foldl .visit start).closeTo 1).innermost

/-- The listing of a folder. -/
structure FileTree where
  root : Option FileNode
  rootPath : Option Path

namespace FileTree

/-- Lists a folder; of a file nothing is listed. -/
def ofFolder (s : WorkspaceSettings) (path : Path) (d : Disk) : Except Fault FileTree := do
  match ← d.locate path with
  | (_, .file _) => return ⟨none, some path⟩
  | (_, .folder entries) =>
    return ⟨some (FileNode.ofWalk path (Node.visits s 0 path (.folder entries))).sorted, some path⟩

/-- How many nodes are below the root. -/
def size (t : FileTree) : Nat :=
  (t.root.map FileNode.size).getD 0

def find? (t : FileTree) (path : Path) : Option FileNode :=
  t.root.bind (·.find? path)

end FileTree

end ScriptedNotes
