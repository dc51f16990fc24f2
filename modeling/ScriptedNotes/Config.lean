import ScriptedNotes.Disk.Effect
import ScriptedNotes.Json.Parser
import ScriptedNotes.Json.Printer
import ScriptedNotes.Workspace.Settings

/-!
The configuration and its file. The file holds one record in JSON; fields that are missing have
their defaults, and fields that nobody knows are passed over. The workspaces of late stand with the
last one in front.
-/

namespace ScriptedNotes

/-- When and how a workspace is listed anew. -/
structure RefreshSettings where
  /-- The pause before it, in milliseconds. -/
  delay : Nat := 100
  /-- Whether it happens after each run that succeeded. -/
  afterRun : Bool := true
  deriving DecidableEq, Repr

structure Config where
  lastWorkspace : Option Path := none
  /-- The workspaces of late, the last one first. -/
  recentWorkspaces : List Path := []
  workspace : WorkspaceSettings := {}
  refresh : RefreshSettings := {}
  deriving DecidableEq, Repr

/-- How many workspaces are remembered. -/
def recentLimit : Nat := 10

/-- Why a configuration was not read or written. -/
inductive ConfigError where
  | disk (e : DiskError)
  /-- The file does not hold a configuration. -/
  | invalid (file : Path)
  deriving DecidableEq, Repr

/-- The causes, the outermost first. -/
def ConfigError.causes : ConfigError → List String
  | .disk e => e.causes
  | .invalid p => ["Invalid config: " ++ p.text]

namespace Config

/-- Whether two configurations say the same; paths count by their parts. -/
def same (a b : Config) : Bool :=
  a.lastWorkspace.map Path.parts == b.lastWorkspace.map Path.parts &&
    a.recentWorkspaces.map Path.parts == b.recentWorkspaces.map Path.parts &&
    a.workspace == b.workspace && a.refresh == b.refresh

/-! ### Remembering workspaces -/

/-- Remembers a workspace as the last one. -/
def remember (c : Config) (p : Path) : Config :=
  { c with
    recentWorkspaces := (p :: c.recentWorkspaces.filter (!·.same p)).take recentLimit
    lastWorkspace := some p }

/-- The folder of the configuration below a home folder. -/
def pathIn (home : Path) : Path :=
  home.join ⟨".config/mne/config.json"⟩

/-- The workspace of somebody who never chose one. -/
def defaultWorkspace (home : Path) : Path :=
  home.join ⟨".local/share/mne/workspace"⟩

/-- The workspace to open: the chosen one, else the last, else the default of a home folder. -/
def workspaceRoot (c : Config) (home : Path) (chosen : Option Path) : Path :=
  (chosen.or c.lastWorkspace).getD (defaultWorkspace home)

/-! ### Writing -/

def pathToJson (p : Path) : Json := .string p.text

/-- The record that the file holds. -/
def toJson (c : Config) : Json :=
  .object [
    ("last_workspace", (c.lastWorkspace.map pathToJson).getD .null),
    ("recent_workspaces", .array (c.recentWorkspaces.map pathToJson)),
    ("workspace", .object [
      ("default_extension", .string c.workspace.defaultExtension),
      ("skip_dirs", .array (c.workspace.skippedFolders.map .string)),
      ("max_depth", .whole c.workspace.maxDepth)]),
    ("automation", .object [
      ("refresh_delay_ms", .whole c.refresh.delay),
      ("refresh_after_run", .bool c.refresh.afterRun)])]

/-! ### Reading -/

/-- The values of the named fields of a record, as far as they are given. An object gives each field
at most once; an array gives the fields in order and may end early. -/
def recordFields? (names : List String) : Json → Option (List (Option Json))
  | .object fields =>
    names.mapM fun name =>
      match fields.filter (·.1 == name) with
      | [] => some none
      | [(_, value)] => some (some value)
      | _ => none
  | .array items =>
    if items.length ≤ names.length then
      some (items.map some ++ List.replicate (names.length - items.length) none)
    else none
  | _ => none

/-- The value of a field, or its default when the field is missing. -/
def field? {α : Type} (read : Json → Option α) (default : α) : Option Json → Option α
  | some value => read value
  | none => some default

def string? : Json → Option String
  | .string s => some s
  | _ => none

def bool? : Json → Option Bool
  | .bool b => some b
  | _ => none

def natural? : Json → Option Nat
  | .whole (.ofNat n) => some n
  | _ => none

def listOf? {α : Type} (read : Json → Option α) : Json → Option (List α)
  | .array items => items.mapM read
  | _ => none

def path? (j : Json) : Option Path :=
  (string? j).map .mk

def optional? {α : Type} (read : Json → Option α) : Json → Option (Option α)
  | .null => some none
  | j => (read j).map some

def workspaceSettings? (j : Json) : Option WorkspaceSettings := do
  let [extension, skipped, depth] ←
    recordFields? ["default_extension", "skip_dirs", "max_depth"] j | none
  let default : WorkspaceSettings := {}
  return {
    defaultExtension := ← field? string? default.defaultExtension extension
    skippedFolders := ← field? (listOf? string?) default.skippedFolders skipped
    maxDepth := ← field? natural? default.maxDepth depth }

def refreshSettings? (j : Json) : Option RefreshSettings := do
  let [delay, afterRun] ← recordFields? ["refresh_delay_ms", "refresh_after_run"] j | none
  let default : RefreshSettings := {}
  return {
    delay := ← field? natural? default.delay delay
    afterRun := ← field? bool? default.afterRun afterRun }

/-- The configuration that a record describes. -/
def ofJson? (j : Json) : Option Config := do
  let [last, recent, workspace, refresh] ←
    recordFields? ["last_workspace", "recent_workspaces", "workspace", "automation"] j | none
  let default : Config := {}
  return {
    lastWorkspace := ← field? (optional? path?) default.lastWorkspace last
    recentWorkspaces := ← field? (listOf? path?) default.recentWorkspaces recent
    workspace := ← field? workspaceSettings? default.workspace workspace
    refresh := ← field? refreshSettings? default.refresh refresh }

/-! ### The file -/

/-- The configuration of a file; that of a missing file is the default. -/
def load (p : Path) (d : Disk) : Except ConfigError Config :=
  if d.has p then
    match d.readText p with
    | .error fault => .error (.disk ⟨.readConfig p, fault⟩)
    | .ok text =>
      match (Json.parse? text).bind ofJson? with
      | some c => .ok c
      | none => .error (.invalid p)
  else .ok {}

/-- Writes the configuration to a file, and makes the folders that lead to it. -/
def save (c : Config) (p : Path) : DiskWork DiskError Unit := do
  DiskWork.makeParent p
  DiskWork.toward (.writeConfig p) (DiskWork.change (·.writeText p c.toJson.pretty))

end Config

end ScriptedNotes
