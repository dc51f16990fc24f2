import ScriptedNotes.Page.ScriptBlock
import ScriptedNotes.Run.Eval

/-!
Running the scripts of notes. A session keeps the store, the tasks and what their scripts can still
reach; contexts run in it one at a time, each with a terminal of its own. After a run that succeeded
the host may be told to refresh its view of the store.
-/

namespace ScriptedNotes

open Run Run.Exec Script

inductive Status where
  | idle
  | running
  | succeeded
  | failed
  deriving DecidableEq, Repr

def Status.name : Status → String
  | .idle => "idle"
  | .running => "running"
  | .succeeded => "succeeded"
  | .failed => "failed"

/-- A script with its terminal. -/
structure Context where
  id : String
  compiled : Except SyntaxError Compiled
  terminal : Terminal := {}
  status : Status := .idle

namespace Context

/-- A fresh context for a source. -/
def ofSource (id : String) (source : List Char) : Context :=
  { id, compiled := compile source }

/-- A fresh context for a script of a note. -/
def ofBlock (b : Page.ScriptBlock) : Context :=
  { id := b.id, compiled := b.compiled }

end Context

/-- What is told of a run. -/
structure Report where
  id : String
  status : Status
  terminal : Terminal

def Context.report (c : Context) : Report :=
  ⟨c.id, c.status, c.terminal⟩

/-- What is done after a run that succeeded. -/
structure Hook (σ : Type) where
  /-- The pause before it, in milliseconds. -/
  delay : Nat
  refresh : σ → Except Failure Unit × σ

/-- What sessions run on: the store's calls, the hook, and the fuel of a run. -/
structure Host (σ : Type) where
  backend : Backend σ
  hook : Option (Hook σ)
  fuel : Nat

/-- A host whose store carries out every call. -/
def Host.willing (fuel : Nat) : Host Unit :=
  ⟨.willing, none, fuel⟩

structure Session (σ : Type) where
  store : σ
  tasks : Registry := .builtin
  heap : Heap := #[]
  /-- All that happened, in order. -/
  journal : Array Event := #[]

/-- Why a request came to nothing. -/
inductive SessionError where
  | noScripts
  | compile (e : SyntaxError)
  | run (e : Run.Error)

def SessionError.message : SessionError → String
  | .noScripts => "No automations found in file"
  | .compile e => e.message
  | .run e => e.message

section

variable {σ : Type} (host : Host σ)

/-- Refreshes the host's view and reports how it went. -/
def refreshStep (hook : Hook σ) : Exec σ Unit := do
  emit .system "> Refreshing workspace..."
  record (.slept hook.delay)
  match ← callStore hook.refresh .refreshed with
  | .ok () => emit .success "> Workspace refreshed"
  | .error f => emit .error ("> Failed to refresh workspace: " ++ f.message)

/-- Empties the terminal, runs the script if there is one, and says how it went. -/
def contextRun (compiled : Except SyntaxError Compiled) : Exec σ Status := do
  clear
  match compiled with
  | .error e =>
    emit .error ("> " ++ e.message)
    return .failed
  | .ok script =>
    emit .system "> Starting automation..."
    match ← attempt (runScript host.backend host.fuel script) with
    | .ok () =>
      emit .success "> Automation completed successfully"
      match host.hook with
      | some hook => refreshStep hook
      | none => pure ()
      return .succeeded
    | .error e =>
      emit .error ("> " ++ e.message)
      return .failed

namespace Session

/-- The state in which a run begins. Frames outlive a run only for the sake of the functions of
scripts that are registered as tasks, or that procedures registered in a run hold on to; without
such tasks, a run begins with an empty heap. -/
def machine (s : Session σ) (context : String) (terminal : Terminal) : Machine σ where
  heap := if s.tasks.hostOnly then #[] else s.heap
  tasks := s.tasks
  store := s.store
  context := context
  terminal := terminal

/-- The session behind a run. -/
def resume (s : Session σ) (m : Machine σ) : Session σ :=
  ⟨m.store, m.tasks, m.heap, s.journal ++ m.journal⟩

def registerTask (s : Session σ) (name description : String) (handler : Handler) : Session σ :=
  { s with tasks := Keyed.put name ⟨description, handler⟩ s.tasks }

/-- Runs a context. A run that is out of fuel leaves it running. -/
def execute (s : Session σ) (c : Context) : Context × Session σ :=
  match contextRun host c.compiled (s.machine c.id c.terminal) with
  | (.value status, m) => ({ c with status, terminal := m.terminal }, s.resume m)
  | (.error _, m) => ({ c with status := .failed, terminal := m.terminal }, s.resume m)
  | (.unfinished, m) => ({ c with status := .running, terminal := m.terminal }, s.resume m)

/-- Runs contexts one after another, whatever becomes of each. -/
def runMany (s : Session σ) : List Context → List Report × Session σ
  | [] => ([], s)
  | c :: rest =>
    let (c, s) := execute host s c
    let (reports, s) := runMany s rest
    (c.report :: reports, s)

/-- Runs all scripts of a note, in order. -/
def runNote (s : Session σ) (text : List Char) : Except SessionError (List Report) × Session σ :=
  match Page.scriptBlocks text with
  | [] => (.error .noScripts, s)
  | blocks =>
    let (reports, s) := s.runMany host (blocks.map .ofBlock)
    (.ok reports, s)

/-- Compiles and runs one source. -/
def runSource (s : Session σ) (id : String) (source : List Char) :
    Except SessionError Report × Session σ :=
  match compile source with
  | .error e => (.error (.compile e), s)
  | .ok script =>
    let (c, s) := execute host s { id, compiled := .ok script }
    (.ok c.report, s)

/-- Runs a task from outside of any script. -/
def invokeTask (s : Session σ) (name : String) (args : List Value) :
    Except SessionError Report × Session σ :=
  let id := "task:" ++ name
  match invoke host.backend host.fuel name args (s.machine id {}) with
  | (.value _, m) => (.ok ⟨id, .succeeded, m.terminal⟩, s.resume m)
  | (.error e, m) => (.error (.run e), s.resume m)
  | (.unfinished, m) => (.ok ⟨id, .running, m.terminal⟩, s.resume m)

end Session

end

end ScriptedNotes
