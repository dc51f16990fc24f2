import ScriptedNotes.Disk.Path

/-!
The words of a command line. Switches may stand before the command and behind it, a few letters may
share one dash, and a value follows its switch in the next word, behind an equals sign or, for a
letter, directly. Behind two dashes nothing is a switch any more. A switch stands at most once on
each side of the command.
-/

namespace ScriptedNotes.CommandLine

inductive Command where
  | render (file : Path)
  | preview (file : Path)
  | run (file : Path) (workspace : Option Path) (json : Bool)
  | tasks
  | reference
  deriving DecidableEq, Repr

structure Invocation where
  verbose : Bool
  command : Command
  deriving DecidableEq, Repr

/-- Why a command line runs no command. -/
inductive Halt where
  /-- The words make no sense. -/
  | misuse
  | help
  | version
  deriving DecidableEq, Repr

inductive Switch where
  | verbose
  | workspace
  | json
  | help
  | version
  deriving DecidableEq, Repr

namespace Switch

def word : Switch → String
  | .verbose => "verbose"
  | .workspace => "workspace"
  | .json => "json"
  | .help => "help"
  | .version => "version"

def letter? : Switch → Option Char
  | .verbose => some 'v'
  | .workspace => some 'w'
  | .json => none
  | .help => some 'h'
  | .version => some 'V'

def takesValue : Switch → Bool
  | .workspace => true
  | _ => false

end Switch

/-- What may stand on one side of the command. -/
structure Side where
  switches : List Switch
  /-- Whether a file is named there. -/
  hasFile : Bool
  /-- Whether the first word that is no switch is the command. -/
  hasCommand : Bool

/-- Before the command. -/
def Side.front : Side := ⟨[.verbose, .help, .version], false, true⟩

/-- Behind a command without a file. -/
def Side.plain : Side := ⟨[.verbose, .help], false, false⟩

/-- Behind a command that reads a file. -/
def Side.file : Side := ⟨[.verbose, .help], true, false⟩

/-- Behind the command that runs the scripts of a file. -/
def Side.run : Side := ⟨[.workspace, .json, .verbose, .help], true, false⟩

/-- What has been read of one side. -/
structure Given where
  switches : List Switch := []
  workspace : Option Path := none
  file : Option Path := none

/-- Takes a switch with its value. -/
def Given.switch (g : Given) (s : Switch) (value : List Char) : Except Halt Given :=
  match s with
  | .help => .error .help
  | .version => .error .version
  | _ =>
    if s ∈ g.switches then .error .misuse
    else
      let g := { g with switches := s :: g.switches }
      if s.takesValue then
        if value.isEmpty then .error .misuse else .ok { g with workspace := some ⟨.ofList value⟩ }
      else .ok g

/-- Takes a word that is no switch. -/
def Given.operand (g : Given) (side : Side) (word : String) : Except Halt Given :=
  if side.hasFile ∧ g.file.isNone ∧ ¬word.isEmpty then .ok { g with file := some ⟨word⟩ }
  else .error .misuse

/-- Reads the letters behind one dash. What comes out with the switches is the one that still waits
for its value. -/
def letters (side : Side) (g : Given) : List Char → Except Halt (Given × Option Switch)
  | [] => .ok (g, none)
  | c :: rest =>
    match side.switches.find? (·.letter? == some c) with
    | none => .error .misuse
    | some s =>
      if s.takesValue then
        match rest with
        | [] => .ok (g, some s)
        | '=' :: value => do return (← g.switch s value, none)
        | value => do return (← g.switch s value, none)
      else do letters side (← g.switch s []) rest

/-- Reads the word behind two dashes. -/
def longSwitch (side : Side) (g : Given) (text : List Char) : Except Halt (Given × Option Switch) :=
  let name := String.ofList (text.takeWhile (· ≠ '='))
  match side.switches.find? (·.word == name), text.dropWhile (· ≠ '=') with
  | none, _ => .error .misuse
  | some s, [] => if s.takesValue then .ok (g, some s) else do return (← g.switch s [], none)
  | some s, _ :: value =>
    if s.takesValue then do return (← g.switch s value, none) else .error .misuse

/-- Reads the words behind two dashes that stand alone. -/
def operands (side : Side) (g : Given) : List String → Except Halt Given
  | [] => .ok g
  | word :: rest => do operands side (← g.operand side word) rest

/-- Reads one side while a switch may wait for its value. The words from the command on are left. -/
def readSide (side : Side) : Given → Option Switch → List String →
    Except Halt (Given × List String)
  | g, none, [] => .ok (g, [])
  | _, some _, [] => .error .misuse
  | g, some s, word :: rest =>
    if word.toList.head? = some '-' ∧ word ≠ "-" then .error .misuse
    else do readSide side (← g.switch s word.toList) none rest
  | g, none, word :: rest =>
    match word.toList with
    | ['-', '-'] => do return (← operands side g rest, [])
    | '-' :: '-' :: text => do
      let (g, waiting) ← longSwitch side g text
      readSide side g waiting rest
    | '-' :: c :: text => do
      let (g, waiting) ← letters side g (c :: text)
      readSide side g waiting rest
    | _ =>
      if side.hasCommand then .ok (g, word :: rest)
      else do readSide side (← g.operand side word) none rest

/-- What stands behind a command that asks for a file, and the file. -/
def readWithFile (side : Side) (words : List String) : Except Halt (Given × Path) := do
  let (g, _) ← readSide side {} none words
  match g.file with
  | some file => return (g, file)
  | none => throw .misuse

/-- The command that a command line asks for. -/
def parse (words : List String) : Except Halt Invocation := do
  let (front, rest) ← readSide .front {} none words
  let finish := fun (g : Given) command =>
    (⟨Switch.verbose ∈ front.switches ∨ .verbose ∈ g.switches, command⟩ : Invocation)
  match rest with
  | "render" :: words => do
    let (g, file) ← readWithFile .file words
    return finish g (.render file)
  | "preview" :: words => do
    let (g, file) ← readWithFile .file words
    return finish g (.preview file)
  | "run" :: words => do
    let (g, file) ← readWithFile .run words
    return finish g (.run file g.workspace (.json ∈ g.switches))
  | "tasks" :: words => do return finish (← readSide .plain {} none words).1 .tasks
  | "reference" :: words => do return finish (← readSide .plain {} none words).1 .reference
  | "help" :: _ => throw .help
  | _ => throw .misuse

end ScriptedNotes.CommandLine
