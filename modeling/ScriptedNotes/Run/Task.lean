import ScriptedNotes.Run.Error
import ScriptedNotes.Run.Storage
import ScriptedNotes.Terminal
import ScriptedNotes.Text.Blank

/-!
Tasks: named procedures that scripts and the host can run. A task is a function of a script or a
procedure of the host. The latter makes requests and goes on from the reply to each, as it likes: a
reply may be the error of what was asked for. So a procedure is a tree of requests.
-/

namespace ScriptedNotes.Run

/-- What a procedure of the host can ask for. -/
inductive Request where
  | emit (kind : LineKind) (text : String)
  | clear
  | sleep (millis : Float)
  | change (c : Change)
  | read (path : String)
  /-- A call of a value that the procedure was given. -/
  | call (f : Value) (args : List Value)
  /-- The run of a task. -/
  | invoke (name : String) (args : List Value)
  /-- The names and descriptions of all tasks. -/
  | tasks

/-- What is replied to a request. -/
abbrev Request.Reply : Request → Type
  | .emit .. | .clear | .sleep _ => Unit
  | .change _ => Except Error Outcome
  | .read _ => Except Error String
  | .call .. | .invoke .. => Except Error Value
  | .tasks => List (String × String)

/-- What a procedure of the host does. -/
inductive Action where
  | done (result : Value)
  | fail (e : Error)
  | ask (request : Request) (next : request.Reply → Action)
  /-- Registers another procedure as a task and goes on. -/
  | register (name description : String) (run : List Value → Action) (next : Action)

/-- What is run when a task is. -/
inductive Handler where
  | script (code : Script.Function) (frame : FrameId)
  /-- A procedure that was registered in a run may hold on to values of that run. -/
  | host (run : List Value → Action) (inRun : Bool := false)

structure Task where
  description : String
  handler : Handler

/-- The tasks by their names; a later one of the same name takes the place of the earlier. -/
abbrev Registry := Keyed Task

/-- Names and descriptions, in the order of the names. -/
def Registry.list (r : Registry) : List (String × String) :=
  r.map fun (name, task) => (name, task.description)

/-- Whether it was registered in a run. Only then can it hold a function of a script. -/
def Handler.fromRun : Handler → Bool
  | .script .. => true
  | .host _ inRun => inRun

/-- Whether all tasks are procedures that the host registered outside of runs. -/
def Registry.hostOnly (r : Registry) : Bool :=
  r.all fun (_, task) => !task.handler.fromRun

namespace Action

def throw (message : String) : Action :=
  .fail (.thrown message)

def emit (kind : LineKind) (text : String) (next : Action) : Action :=
  .ask (.emit kind text) fun _ => next

/-- Makes a change and goes on with its outcome; hands on the error of a change that could not be
carried out. -/
def change (c : Change) (next : Outcome → Action) : Action :=
  .ask (.change c) fun
    | .ok outcome => next outcome
    | .error e => .fail e

/-- Creates files one after another and then goes on. -/
def createFiles (files : List (String × String)) (next : Action) : Action :=
  files.foldr (fun (path, content) next => .change (.createFile path content) fun _ => next) next

end Action

/-- Lays out a new project: a folder, and for the basic template a few files in it. -/
def scaffold (args : List Value) : Action :=
  let name := match args with
    | .str s :: _ => String.ofList (Text.trim s.toList)
    | _ => ""
  let template := match args with
    | _ :: .nil :: _ => "basic"
    | _ :: v :: _ => v.display
    | _ => "basic"
  let files := if template = "basic" then
      [(name ++ "/README.md", "# " ++ name), (name ++ "/src/main.js", "// Main entry point"),
        (name ++ "/src/styles.css", "/* Styles */")]
    else []
  if name = "" then .throw "scaffold expects a project name"
  else
    .emit .info ("Creating " ++ template ++ " project: " ++ name) <|
      .change (.createDirectory name) fun _ =>
        .createFiles files (.emit .success "Project created successfully!" (.done (.bool true)))

/-- The tasks that are there from the start. -/
def Registry.builtin : Registry :=
  [("scaffold",
    ⟨"Create a new project structure (name, template = \"basic\")", .host scaffold⟩)]

end ScriptedNotes.Run
