import ScriptedNotes.App
import ScriptedNotes.CommandLine.Arguments

/-!
What a command prints and how it ends. A run prints the lines of its scripts as they come, or the
same events in JSON, and then how each script went; it ends well only when every script did.
-/

namespace ScriptedNotes.CommandLine

open Run (Event)

/-- What is printed, what is told of errors, and the exit code. -/
structure Ending where
  code : Nat
  output : String := ""
  complaint : Option String := none
  deriving DecidableEq, Repr

/-- More than any run that ends can use. -/
def ampleFuel : Nat := Nat.pow 2 60

/-- A text filled up with blanks. -/
def padded (width : Nat) (s : String) : String :=
  s ++ .ofList (List.replicate (width - s.length) ' ')

def lineBreak (s : String) : String := s ++ "\n"

/-! ### Output -/

/-- An event in JSON, if the output is told of it. -/
def eventJson? : Event → Option Json
  | .line id l =>
    some (.object [("event", .string "line"), ("context_id", .string id), ("text", .string l.text),
      ("kind", .string l.kind.name)])
  | .cleared id => some (.object [("event", .string "cleared"), ("context_id", .string id)])
  | _ => none

/-- An event as a line of text. -/
def eventText? : Event → Option String
  | .line id l => some ("[" ++ id ++ "] " ++ padded 7 l.kind.name ++ " " ++ l.text)
  | _ => none

/-- What is printed of an event. -/
def showEvent (json : Bool) (e : Event) : String :=
  ((if json then (eventJson? e).map Json.compact else eventText? e).map lineBreak).getD ""

def statusWord : Status → String
  | .succeeded => "ok"
  | .failed => "FAILED"
  | .running => "running"
  | .idle => "skipped"

def summaryJson (r : Report) : Json :=
  .object [("context_id", .string r.id), ("event", .string "summary"),
    ("status", .string r.status.name)]

/-- How each script went. -/
def showSummary (json : Bool) (reports : List Report) : String :=
  if json then .join (reports.map fun r => lineBreak (summaryJson r).compact)
  else
    lineBreak "" ++
      .join (reports.map fun r => lineBreak (padded 16 r.id ++ " " ++ statusWord r.status))

def showTask (name description : String) : String :=
  lineBreak (padded 12 name ++ " " ++ description)

/-! ### Commands -/

/-- The ending of a command that failed. -/
def failure (output : String) (causes : List String) : Ending :=
  ⟨1, output, some ("Error: " ++ ": ".intercalate causes)⟩

/-- Prints something made of a note. -/
def showNote (file : Path) (d : Disk) (f : Document → List Char) : Ending :=
  match Document.read file d with
  | .ok doc => { code := 0, output := lineBreak (.ofList (f doc)) }
  | .error e => failure "" e.causes

/-- Runs the scripts of a note. A configuration that cannot be read counts as the default, and that
the workspace could not be remembered is no reason to stop. -/
def runScripts (home file : Path) (workspace : Option Path) (json : Bool) (d : Disk) :
    Ending × Disk :=
  let configFile := Config.pathIn home
  let config := match Config.load configFile d with
    | .ok c => c
    | .error _ => {}
  match App.start config home workspace d with
  | (.error e, d) => (failure "" e.causes, d)
  | (.ok app, _) =>
    let (_, app) := app.remember configFile
    let (result, app) := app.runFile (App.host ampleFuel config) file
    let shown := String.join (app.session.journal.toList.map (showEvent json))
    match result with
    | .error e => (failure shown e.causes, app.disk)
    | .ok reports =>
      let well := reports.all (·.status == .succeeded)
      ({ code := if well then 0 else 1, output := shown ++ showSummary json reports }, app.disk)

def usage : String :=
  "Usage: mne [OPTIONS] <COMMAND>\n\nCommands:\n" ++
    "  render FILE     Print the rendered markup of a note\n" ++
    "  preview FILE    Print the preview markup of a note\n" ++
    "  run FILE        Run every automation block of a note\n" ++
    "  tasks           List registered tasks\n" ++
    "  reference       Print the automation quick reference\n\nOptions:\n" ++
    "  -v, --verbose   Enable debug logging\n" ++
    "  -h, --help      Print help\n" ++
    "  -V, --version   Print version\n"

/-- The ending of a command line that asks for no command. -/
def Halt.ending : Halt → Ending
  | .misuse => { code := 2, complaint := some usage }
  | .help => { code := 0, output := usage }
  | .version => { code := 0, output := lineBreak "mne 0.1.0" }

/-- Carries a command out. -/
def perform (home : Path) (c : Command) (d : Disk) : Ending × Disk :=
  match c with
  | .render file => (showNote file d (·.render.html), d)
  | .preview file => (showNote file d Document.preview, d)
  | .run file workspace json => runScripts home file workspace json d
  | .tasks =>
    let listed := Run.Registry.builtin.list
    ({ code := 0, output := .join (listed.map fun (n, t) => showTask n t) }, d)
  | .reference => ({ code := 0, output := Page.quickReference }, d)

/-- Carries out what the words of a command line ask for. -/
def run (home : Path) (words : List String) (d : Disk) : Ending × Disk :=
  match parse words with
  | .ok invocation => perform home invocation.command d
  | .error halt => (halt.ending, d)

end ScriptedNotes.CommandLine
