import ScriptedNotes.Run.Scope
import ScriptedNotes.Run.Task

/-!
The state of a run and the steps that change it. A computation ends with a value, with an error, or
not at all within its fuel; it always leaves a state. Everything that can be seen from outside is
entered in the journal when it happens.
-/

namespace ScriptedNotes.Run

/-- Something that happened, seen from outside. -/
inductive Event where
  | line (context : String) (l : Line)
  | cleared (context : String)
  | changed (c : Change) (reply : Except Failure Outcome)
  | read (path : String) (reply : Except Failure String)
  | slept (millis : Nat)
  | refreshed (reply : Except Failure Unit)

/-- The deepest nesting of calls of script functions. -/
def maxDepth : Nat := 32

structure Machine (σ : Type) where
  heap : Heap := #[]
  tasks : Registry
  store : σ
  /-- How many calls of script functions are open. -/
  depth : Nat := 0
  /-- The most that ever were. -/
  deepest : Nat := 0
  /-- How many bodies of calls ended with a `break` or `continue` that no loop took. -/
  strays : Nat := 0
  /-- The assignments that found no variable of the name, the last one first: the frames that they
  were made from and the names. -/
  unbound : List (FrameId × String) := []
  /-- The context whose terminal gets the output. -/
  context : String
  terminal : Terminal := {}
  journal : Array Event := #[]

namespace Machine

variable {σ : Type}

/-- Changes the frames. -/
@[inline]
def mapHeap (f : Heap → Heap) : Machine σ → Machine σ
  | ⟨heap, tasks, store, depth, deepest, strays, unbound, context, terminal, journal⟩ =>
    ⟨f heap, tasks, store, depth, deepest, strays, unbound, context, terminal, journal⟩

/-- Notes an assignment to a name from a frame if nothing there has the name yet. -/
def noteUnbound (frame : FrameId) (name : String) (m : Machine σ) : Machine σ :=
  { m with
    unbound :=
      if (m.heap.holder? frame name).isNone then (frame, name) :: m.unbound else m.unbound }

/-- Changes what is on show and what is entered in the journal. -/
@[inline]
def mapOutput (f : Terminal → Terminal) (g : Array Event → Array Event) : Machine σ → Machine σ
  | ⟨heap, tasks, store, depth, deepest, strays, unbound, context, terminal, journal⟩ =>
    ⟨heap, tasks, store, depth, deepest, strays, unbound, context, f terminal, g journal⟩

end Machine

/-- How a computation ends. -/
inductive Result (α : Type) where
  | value (a : α)
  | error (e : Error)
  /-- The fuel ran out. -/
  | unfinished
  deriving DecidableEq

/-- A computation of a script. -/
def Exec (σ α : Type) : Type := Machine σ → Result α × Machine σ

namespace Exec

variable {σ α β : Type}

@[always_inline, inline]
protected def pure (a : α) : Exec σ α := fun m => (.value a, m)

@[always_inline, inline]
protected def bind (x : Exec σ α) (f : α → Exec σ β) : Exec σ β := fun m =>
  match x m with
  | (.value a, m) => f a m
  | (.error e, m) => (.error e, m)
  | (.unfinished, m) => (.unfinished, m)

@[always_inline]
instance : Monad (Exec σ) where
  pure := Exec.pure
  bind := Exec.bind

def fail (e : Error) : Exec σ α := fun m => (.error e, m)

def throw (message : String) : Exec σ α := fail (.thrown message)

def unfinished : Exec σ α := fun m => (.unfinished, m)

/-- Goes on with the value or throws the message. -/
def ofExcept : Except String α → Exec σ α
  | .ok a => pure a
  | .error message => throw message

def getHeap : Exec σ Heap := fun m => (.value m.heap, m)

def getTasks : Exec σ Registry := fun m => (.value m.tasks, m)

/-- Adds a frame inside another. -/
def newFrame (frame : FrameId) : Exec σ FrameId := fun m =>
  let new := m.heap.size
  let outer := m.heap.chain frame
  (.value new, m.mapHeap (·.child outer))

def declare (frame : FrameId) (name : String) (v : Value) (constant : Bool) : Exec σ Unit :=
  fun m => (.value (), m.mapHeap (·.declare frame name v constant))

/-- Assigns to a name. -/
def assign (frame : FrameId) (name : String) (v : Value) : Exec σ Unit := fun m =>
  match m.heap.assignee? frame name with
  | some f => (.value (), (m.noteUnbound frame name).mapHeap (·.declare f name v false))
  | none => (.error (.thrown ("Assignment to constant variable '" ++ name ++ "'")), m)

/-- Enters something in the journal. -/
def record (e : Event) : Exec σ Unit := fun m =>
  (.value (), m.mapOutput id (·.push e))

/-- Writes a line to the terminal. -/
def emit (kind : LineKind) (text : String) : Exec σ Unit := fun m =>
  let context := m.context
  (.value (), m.mapOutput (·.push ⟨kind, text⟩) (·.push (.line context ⟨kind, text⟩)))

/-- Empties the terminal. -/
def clear : Exec σ Unit := fun m =>
  let context := m.context
  (.value (), m.mapOutput (fun _ => {}) (·.push (.cleared context)))

/-- The whole milliseconds of a pause; what is not positive or not finite is none. -/
def pauseOf (millis : Float) : Nat :=
  min (Number.floorNat millis) (Nat.pow 2 64 - 1)

def sleep (millis : Float) : Exec σ Unit :=
  record (.slept (pauseOf millis))

/-- Makes a call of the store and enters it in the journal. -/
def callStore (f : σ → Except Failure α × σ) (event : Except Failure α → Event) :
    Exec σ (Except Failure α)
  | ⟨heap, tasks, store, depth, deepest, strays, unbound, context, terminal, journal⟩ =>
    let (reply, store) := f store
    (.value reply,
      ⟨heap, tasks, store, depth, deepest, strays, unbound, context, terminal,
        journal.push (event reply)⟩)

/-- What a call replies, or the error of one that could not be carried out. -/
def ofReply : Except Failure α → Exec σ α
  | .ok a => pure a
  | .error f => fail (.storage f.message)

def change (S : Backend σ) (c : Change) : Exec σ Outcome := do
  ofReply (← callStore (S.change c) (.changed c))

def read (S : Backend σ) (path : String) : Exec σ String := do
  ofReply (← callStore (S.read path) (.read path))

/-- Registers a task. -/
def register (name : String) (task : Task) : Exec σ Unit := fun m =>
  (.value (), { m with tasks := Keyed.put name task m.tasks })

/-- Runs the body of a call one level deeper, unless that is too deep. However the body ends, the
level is left again. -/
def nested (body : Exec σ α) : Exec σ α := fun m =>
  if maxDepth ≤ m.depth then (.error (.thrown "Maximum call stack size exceeded"), m)
  else
    let (r, m) := body { m with depth := m.depth + 1, deepest := max m.deepest (m.depth + 1) }
    (r, { m with depth := m.depth - 1 })

/-- Makes the error of a computation its value. -/
def attempt (x : Exec σ α) : Exec σ (Except Error α) := fun m =>
  match x m with
  | (.value a, m) => (.value (.ok a), m)
  | (.error e, m) => (.value (.error e), m)
  | (.unfinished, m) => (.unfinished, m)

/-- The results for the items of a list, from left to right. -/
def each (f : α → Exec σ β) : List α → Exec σ (List β)
  | [] => pure []
  | a :: rest => do
    let b ← f a
    let bs ← each f rest
    return b :: bs

/-- The first item of a list that passes a test. -/
def first? (test : α → Exec σ Bool) : List α → Exec σ (Option α)
  | [] => pure none
  | a :: rest => do
    if ← test a then return some a else first? test rest

section

variable (S : Backend σ) (call : Value → List Value → Exec σ Value)
variable (invoke : String → List Value → Exec σ Value)

/-- Does what a procedure of the host asks for. -/
def answer : (request : Request) → Exec σ request.Reply
  | .emit kind text => emit kind text
  | .clear => clear
  | .sleep millis => sleep millis
  | .change c => attempt (change S c)
  | .read path => attempt (read S path)
  | .call f args => attempt (call f args)
  | .invoke name args => attempt (invoke name args)
  | .tasks => do return (← getTasks).list

/-- Carries out a procedure of the host. -/
def perform : Action → Exec σ Value
  | .done v => pure v
  | .fail e => fail e
  | .ask request next => do perform (next (← answer S call invoke request))
  | .register name description run next => do
    register name ⟨description, .host run true⟩
    perform next

end

end Exec

end ScriptedNotes.Run
