import ScriptedNotes.Run.Machine
import ScriptedNotes.Run.Operator
import ScriptedNotes.Script.Compile

/-!
The evaluator of scripts. Statements run strictly in order. Each of the four mutually recursive
functions takes a fuel that falls with every step inward; a run that is out of fuel is unfinished,
and more fuel never changes how a finished run ended.
-/

namespace ScriptedNotes.Run

open Script

/-- How a statement ends. -/
inductive Flow where
  | normal
  | return (v : Value)
  | break
  | continue

/-- How a loop goes on after its body: not at all, or with the next round. -/
def Flow.leavesLoop? : Flow → Option Flow
  | .break => some .normal
  | .return v => some (.return v)
  | .normal | .continue => none

/-- The value that a call has when its body ends. -/
def Flow.result : Flow → Value
  | .return v => v
  | _ => .nil

/-- Whether a body ends with a jump that belongs to a loop. -/
def Flow.isStray : Flow → Bool
  | .break | .continue => true
  | .normal | .return _ => false

variable {σ : Type}

namespace Exec

/-- Makes the end of a body the value of its call, and counts a jump that gets lost by that. -/
def endCall (flow : Flow) : Exec σ Value := fun m =>
  (.value flow.result, if flow.isStray then { m with strays := m.strays + 1 } else m)

/-- Does the items of a list one after another until one does not end normally. -/
def sequence {α : Type} (f : α → Exec σ Flow) : List α → Exec σ Flow
  | [] => pure .normal
  | a :: rest => do
    match ← f a with
    | .normal => sequence f rest
    | flow => return flow

/-- Does the body of a loop for each item of a list. -/
def forItems {α : Type} (body : α → Exec σ Flow) : List α → Exec σ Flow
  | [] => pure .normal
  | a :: rest => do
    match (← body a).leavesLoop? with
    | some flow => return flow
    | none => forItems body rest

/-- Does the body of a loop for each number up to a bound. -/
def forNumbers (body : Float → Exec σ Flow) (stop : Float) : Nat → Float → Exec σ Flow
  | 0, _ => unfinished
  | fuel + 1, x =>
    if x ≤ stop then do
      match (← body x).leavesLoop? with
      | some flow => return flow
      | none => forNumbers body stop fuel (x + 1)
    else return .normal

/-- Does the body of a loop while a condition holds. -/
def whileTrue (condition : Exec σ Bool) (body : Exec σ Flow) : Nat → Exec σ Flow
  | 0 => unfinished
  | fuel + 1 => do
    if ← condition then
      match (← body).leavesLoop? with
      | some flow => return flow
      | none => whileTrue condition body fuel
    else return .normal

/-- The value of a name: a variable hides a function that every script knows. -/
def resolve (frame : FrameId) (name : String) : Exec σ Value := do
  match (← getHeap).lookup? frame name, Builtin.ofName? name with
  | some v, _ => return v
  | none, some b => return .builtin b
  | none, none => throw (name ++ " is not defined")

/-- The value of a name that is called: a variable that cannot be called hides nothing. -/
def resolveCallable (frame : FrameId) (name : String) : Exec σ Value := do
  let v? := (← getHeap).lookup? frame name
  match v?.filter Value.isCallable, Builtin.ofName? name with
  | some v, _ => return v
  | none, some b => return .builtin b
  | none, none =>
    throw (name ++ if v?.isSome then " is not a function" else " is not defined")

/-- The variable and the path of the target of an assignment; the last index is looked at first. -/
def targetOf (evalIndex : Expr → Exec σ Value) : Expr → List Key → Exec σ (String × List Key)
  | .ident name, path => pure (name, path)
  | .member object property, path => targetOf evalIndex object (.field property :: path)
  | .index object index, path => do
    let v ← evalIndex index
    targetOf evalIndex object (.index v :: path)
  | _, _ => throw "Invalid assignment target"

/-- Assigns to the element of a variable that a path leads to. -/
def assignPath (frame : FrameId) (name : String) (path : List Key) (v : Value) : Exec σ Unit := do
  if path.isEmpty then assign frame name v
  else
    match (← getHeap).lookup? frame name with
    | none => throw (name ++ " is not defined")
    | some container =>
      let container ← ofExcept (setPath container path v)
      assign frame name container

/-- Declares the named functions of a block, which are known throughout it. -/
def hoist (frame : FrameId) : List Stmt → Exec σ Unit
  | [] => pure ()
  | .function code :: rest => do
    match code.name with
    | some name => declare frame name (.function code frame) false
    | none => pure ()
    hoist frame rest
  | _ :: rest => hoist frame rest

/-- Binds the parameters of a function; missing arguments are nil, and spare ones are dropped. -/
def bindParams (frame : FrameId) : List String → List Value → Exec σ Unit
  | [], _ => pure ()
  | name :: names, args => do
    declare frame name (args.headD .nil) false
    bindParams frame names args.tail

/-- An argument that has to be a string. -/
def stringArg (function : String) (arg? : Option Value) : Exec σ String :=
  match arg? with
  | some (.str s) => pure s
  | some v => throw (function ++ " expects a string, got " ++ v.typeName)
  | none => throw (function ++ " expects a path")

/-- The text of an argument; nil and a missing one are empty. -/
def optionalText : Option Value → String
  | none | some .nil => ""
  | some v => v.display

/-- The texts of all arguments with blanks between them. -/
def joined (text : Value → String) (args : List Value) : String :=
  " ".intercalate (args.map text)

/-- Calls a function that every script knows, tasks apart. -/
def callBuiltin (S : Backend σ) (invoke : String → List Value → Exec σ Value) (b : Builtin)
    (args : List Value) : Exec σ Value := do
  let path : Exec σ String := stringArg b.name args[0]?
  let content := optionalText args[1]?
  match b with
  | .createFile => return (← change S (.createFile (← path) content)).toValue
  | .deleteFile => return (← change S (.deleteFile (← path))).toValue
  | .readFile => return .str (← read S (← path))
  | .writeFile => return (← change S (.writeFile (← path) content)).toValue
  | .createDirectory => return (← change S (.createDirectory (← path))).toValue
  | .deleteDirectory => return (← change S (.deleteDirectory (← path))).toValue
  | .print =>
    emit .info (joined Value.printText args)
    return .bool true
  | .printError =>
    emit .error (joined Value.display args)
    return .bool true
  | .printSuccess =>
    emit .success (joined Value.display args)
    return .bool true
  | .clear =>
    clear
    return .bool true
  | .sleep =>
    match args with
    | [] => sleep 0
    | v :: _ => sleep (← ofExcept (expectNumber v "sleep duration"))
    return .nil
  | .runTask =>
    match args with
    | .str task :: args => invoke task args
    | _ => throw "runTask expects a task name"
  | .registerTask =>
    let task ← path
    let handler : Option Value := args[2]?
    match handler with
    | some (.function code frame) =>
      register task ⟨content, .script code frame⟩
      return .bool true
    | _ => throw "registerTask expects a function handler"

end Exec

open Exec

/-- The message of a thrown value: the message of a failure that is thrown on, or the text. -/
def thrownMessage (v : Value) : String :=
  match v with
  | .object fields => ((Keyed.get? "message" fields).getD v).display
  | _ => v.display

variable (S : Backend σ)

mutual

/-- The value of an expression. -/
def eval : Nat → FrameId → Expr → Exec σ Value
  | 0, _, _ => unfinished
  | fuel + 1, frame, e =>
    match e with
    | .number x => return .number x
    | .str s => return .str s
    | .bool b => return .bool b
    | .nil => return .nil
    | .template parts => do
      let texts ← each (fun
        | .text s => pure s
        | .expr e => do return (← eval fuel frame e).display) parts
      return .str (String.join texts)
    | .array items => do return .array (← each (eval fuel frame) items)
    | .ident name => resolve frame name
    | .unary .not e => do return .bool !(← eval fuel frame e).isTruthy
    | .unary .neg e => do
      let v ← eval fuel frame e
      return .number (-(← ofExcept (expectNumber v "Operand of '-'")))
    | .binary op left right => do
      let l ← eval fuel frame left
      match op with
      | .and => if l.isTruthy then eval fuel frame right else return l
      | .or => if l.isTruthy then return l else eval fuel frame right
      | _ => ofExcept (applyBinary op l (← eval fuel frame right))
    | .call callee args => do
      let f ← match callee with
        | .ident name => resolveCallable frame name
        | _ => eval fuel frame callee
      let vs ← each (eval fuel frame) args
      call fuel f vs
    | .member object property => do
      ofExcept (member (← eval fuel frame object) property)
    | .index object index => do
      let o ← eval fuel frame object
      ofExcept (elementOf o (← eval fuel frame index))
    | .lambda code => return .function code frame

/-- Calls a value. -/
def call : Nat → Value → List Value → Exec σ Value
  | 0, _, _ => unfinished
  | fuel + 1, f, args =>
    match f with
    | .function code frame =>
      nested do
        let inner ← newFrame frame
        bindParams inner code.params args
        endCall (← execBlock fuel inner code.body)
    | .builtin b => callBuiltin S (invoke fuel) b args
    | v => throw (v.typeName ++ " is not a function")

/-- Runs the task that has a name at this moment. -/
def invoke : Nat → String → List Value → Exec σ Value
  | 0, _, _ => unfinished
  | fuel + 1, name, args => do
    match Keyed.get? name (← getTasks) with
    | some ⟨_, .script code frame⟩ => call fuel (.function code frame) args
    | some ⟨_, .host run _⟩ => perform S (call fuel) (invoke fuel) (run args)
    | none => fail (.taskNotFound name)

/-- Runs the statements of a block in its frame. -/
def execBlock : Nat → FrameId → List Stmt → Exec σ Flow
  | 0, _, _ => unfinished
  | fuel + 1, frame, stmts => do
    hoist frame stmts
    sequence (exec fuel frame) stmts

/-- Runs one statement. -/
def exec : Nat → FrameId → Stmt → Exec σ Flow
  | 0, _, _ => unfinished
  | fuel + 1, frame, s =>
    let inner := fun (body : List Stmt) => do execBlock fuel (← newFrame frame) body
    let round := fun (var : String) (body : List Stmt) (v : Value) => do
      let f ← newFrame frame
      declare f var v false
      execBlock fuel f body
    match s with
    | .declare constant name none => do
      declare frame name .nil constant
      return .normal
    | .declare constant name (some e) => do
      declare frame name (← eval fuel frame e) constant
      return .normal
    | .assign target e => do
      let v ← eval fuel frame e
      let (name, path) ← targetOf (eval fuel frame) target []
      assignPath frame name path v
      return .normal
    | .expr e => do
      discard <| eval fuel frame e
      return .normal
    | .cond branches otherwise => do
      let holds := fun (b : Branch) => match b with
        | .mk condition _ => do return (← eval fuel frame condition).isTruthy
      match ← first? holds branches, otherwise with
      | some (.mk _ body), _ => inner body
      | none, some body => inner body
      | none, none => return .normal
    | .forRange var start stop body => do
      let low ← ofExcept (expectNumber (← eval fuel frame start) "Range start")
      let high ← ofExcept (expectNumber (← eval fuel frame stop) "Range end")
      forNumbers (fun x => round var body (.number x)) high fuel low
    | .forEach var items body => do
      match ← eval fuel frame items with
      | .array vs => forItems (round var body) vs
      | .str s => forItems (fun c => round var body (.str c.toString)) s.toList
      | v => throw (v.typeName ++ " is not iterable")
    | .while condition body =>
      whileTrue (do return (← eval fuel frame condition).isTruthy) (inner body) fuel
    | .try body handler => do
      match ← attempt (inner body) with
      | .ok flow => return flow
      | .error e => round failureName handler (.failure e.message)
    | .function _ => return .normal
    | .return none => return .return .nil
    | .return (some e) => do return .return (← eval fuel frame e)
    | .throw e => do throw (thrownMessage (← eval fuel frame e))
    | .break => return .break
    | .continue => return .continue

end

/-- Runs a program in a global frame of its own. -/
def runProgram (fuel : Nat) (program : Program) : Exec σ Flow := fun m =>
  let (frame, heap) := m.heap.root
  execBlock S fuel frame program { m with heap }

/-- Runs a script. In the full language an error is also written to the terminal. -/
def runScript (fuel : Nat) (script : Compiled) : Exec σ Unit := do
  match ← attempt (runProgram S fuel script.program) with
  | .ok _ => return ()
  | .error e =>
    if script.tier = .advanced then emit .error ("Automation error: " ++ e.message)
    fail e

end ScriptedNotes.Run
