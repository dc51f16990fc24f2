import ScriptedNotes.CommandLine.Run

/-!
The program. The part of the disk that a command line is about is read, the command is carried out
on it, and what has changed there is written back.
-/

namespace ScriptedNotes.Main

open CommandLine

/-- The entry of a folder. -/
def entryOf (folder name : String) : IO.FS.DirEntry := ⟨folder, name⟩

/-- Reads what stands at a path; the folders in it only when it is read in depth. -/
partial def readNode (path : String) (deep : Bool) : IO (Option Node) := do
  let place := (entryOf path "").path
  if ← place.isDir then
    if !deep then return some (.folder [])
    let mut entries : Keyed Node := []
    for entry in ← place.readDir do
      if let some n ← readNode (path ++ "/" ++ entry.fileName) true then
        entries := entries.put entry.fileName n
    return some (.folder entries)
  else if ← (entryOf "" path).path.pathExists then
    return some (.file (.ofBytes (← IO.FS.readBinFile path)))
  else return none

/-- Adds what stands at a path to a disk, with the folders that lead there. -/
def addPath (d : Disk) (p : Path) (deep : Bool) : IO Disk := do
  let mut d := d
  for q in p.ancestors.reverse do
    let whole := deep && q == p
    if let some n ← readNode q.text whole then
      if let .ok (folder, .name s _) := d.target q then
        if whole || !d.hasFolder q then
          d := d.put folder s n
  return d

/-- Writes back what has become of a node. -/
partial def writeNode (path : String) (old new : Option Node) : IO Unit := do
  match old, new with
  | some (.folder before), some (.folder after) =>
    let names := Keyed.keys before ++ (Keyed.keys after).filter (· ∉ Keyed.keys before)
    for name in names do
      writeNode (path ++ "/" ++ name) (Keyed.get? name before) (Keyed.get? name after)
  | _, some (.folder after) =>
    if old.isSome then IO.FS.removeFile path
    unless ← (entryOf path "").path.isDir do IO.FS.createDir path
    for (name, n) in after do writeNode (path ++ "/" ++ name) none (some n)
  | some (.file before), some (.file after) =>
    unless before = after do IO.FS.writeBinFile path after.bytes
  | _, some (.file after) =>
    if old.isSome then IO.FS.removeDirAll path
    IO.FS.writeBinFile path after.bytes
  | some (.folder _), none => IO.FS.removeDirAll path
  | some (.file _), none => IO.FS.removeFile path
  | none, none => pure ()

/-- Reads the part of the disk that a command is about. -/
def readDisk (start home : Path) (c : Command) : IO Disk := do
  let names := start.parts.filterMap fun | .name s => some s | _ => none
  let d ← addPath ⟨.folder [], names⟩ start false
  match c with
  | .render file | .preview file => addPath d (start.join file) false
  | .run file workspace _ =>
    let d ← addPath d (start.join file) false
    let d ← addPath d (Config.pathIn home) false
    let config := (Config.load (Config.pathIn home) d).toOption.getD {}
    addPath d (start.join (config.workspaceRoot home workspace)) true
  | .tasks | .reference => return d

end ScriptedNotes.Main

open ScriptedNotes in
def main (args : List String) : IO UInt32 := do
  let start : Path := ⟨(← IO.currentDir).toString⟩
  let home : Path := ⟨(← IO.getEnv "HOME").getD "/"⟩
  let before ← match CommandLine.parse args with
    | .ok invocation => Main.readDisk start home invocation.command
    | .error _ => pure ⟨.folder [], []⟩
  let (ending, after) := CommandLine.run home args before
  Main.writeNode "" (some before.tree) (some after.tree)
  IO.print ending.output
  if let some complaint := ending.complaint then IO.eprintln complaint
  return ending.code.toUInt32
