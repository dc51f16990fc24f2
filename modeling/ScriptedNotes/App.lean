import ScriptedNotes.Config
import ScriptedNotes.Document
import ScriptedNotes.Session
import ScriptedNotes.Workspace.Store

/-!
The whole of it: a configuration, a workspace with the session that runs scripts on it, and the open
notes with the one that is active. Notes are told apart by the parts of their paths.
-/

namespace ScriptedNotes

/-- Why a request came to nothing. -/
inductive AppError where
  | disk (e : DiskError)
  | noDocument
  /-- The active note has no script of this name. -/
  | noScript (id : String)
  | session (e : SessionError)

/-- The causes, the outermost first. -/
def AppError.causes : AppError → List String
  | .disk e => e.causes
  | .noDocument => ["No active document"]
  | .noScript id => ["No automation block " ++ id]
  | .session e => [e.message]

structure App where
  config : Config
  session : Session Site
  documents : List (Path × Document) := []
  active : Option Path := none

namespace App

/-- What the scripts of an application run on. -/
def host (fuel : Nat) (c : Config) : Host Site where
  backend := Site.backend
  hook := if c.refresh.afterRun then some ⟨c.refresh.delay, Site.refresh⟩ else none
  fuel := fuel

/-- Opens the chosen workspace, or the one that the configuration names, and tidies it up. -/
def start (config : Config) (home : Path) (chosen : Option Path) : DiskWork DiskError App := do
  let workspace ← Workspace.openAt (config.workspaceRoot home chosen) config.workspace
  let _ ← workspace.removeStrays
  let disk ← get
  return { config, session := { store := ⟨workspace, disk⟩ } }

def site (a : App) : Site := a.session.store

def disk (a : App) : Disk := a.site.disk

def workspace (a : App) : Workspace := a.site.workspace

/-- The application after work on its disk. -/
def withDisk (a : App) (d : Disk) : App :=
  { a with session := { a.session with store := { a.site with disk := d } } }

/-- The open note of a path. -/
def document? (a : App) (p : Path) : Option Document :=
  (a.documents.find? (·.1.same p)).map (·.2)

def activeDocument? (a : App) : Option Document :=
  a.active.bind a.document?

/-- The application with another state of the active note. -/
def setActive (a : App) (doc : Document) : App :=
  match a.active with
  | some p =>
    { a with documents := a.documents.map fun (q, old) => (q, if q.same p then doc else old) }
  | none => a

/-- Opens a note, unless it is open, and makes it the active one. -/
def openDocument (a : App) (p : Path) : Except AppError Unit × App :=
  match a.document? p with
  | some _ => (.ok (), { a with active := some p })
  | none =>
    match Document.read p a.disk with
    | .ok doc => (.ok (), { a with documents := a.documents ++ [(p, doc)], active := some p })
    | .error e => (.error (.disk e), a)

/-- Saves the active note, if there is one. -/
def saveActive (a : App) : Except AppError Unit × App :=
  match a.activeDocument? with
  | none => (.ok (), a)
  | some doc =>
    match doc.save a.disk with
    | (.ok doc, d) => (.ok (), (a.withDisk d).setActive doc)
    | (.error e, d) => (.error (.disk e), a.withDisk d)

/-- Remembers the workspace and writes the configuration to a file. -/
def remember (a : App) (file : Path) : Except AppError Unit × App :=
  let a := { a with config := a.config.remember a.workspace.root }
  match a.config.save file a.disk with
  | (.ok (), d) => (.ok (), a.withDisk d)
  | (.error e, d) => (.error (.disk e), a.withDisk d)

/-- What came of a request to the session. -/
def settle {α : Type} (a : App) : Except SessionError α × Session Site → Except AppError α × App
  | (r, session) => (r.mapError .session, { a with session })

section

variable (host : Host Site)

/-- Runs all scripts of the active note. -/
def runActive (a : App) : Except AppError (List Report) × App :=
  match a.activeDocument? with
  | none => (.error .noDocument, a)
  | some doc => a.settle (a.session.runNote host doc.content.toList)

/-- Opens a note and runs all its scripts. -/
def runFile (a : App) (p : Path) : Except AppError (List Report) × App :=
  match a.openDocument p with
  | (.ok (), a) => a.runActive host
  | (.error e, a) => (.error e, a)

/-- Runs one script of the active note. -/
def runBlock (a : App) (id : String) : Except AppError Report × App :=
  match a.activeDocument?.bind fun doc => doc.scripts.find? (·.id == id) with
  | none => (.error (.noScript id), a)
  | some block =>
    let (c, session) := a.session.execute host (.ofBlock block)
    (.ok c.report, { a with session })

/-- Runs a task from outside of any script. -/
def invokeTask (a : App) (name : String) (args : List Run.Value) : Except AppError Report × App :=
  a.settle (a.session.invokeTask host name args)

end

end App

end ScriptedNotes
