import ScriptedNotes.Json.Printer
import ScriptedNotes.Keyed
import ScriptedNotes.Script.Syntax

/-!
The values of a running script, what they print as, and when two of them are equal.
-/

namespace ScriptedNotes.Run

/-- The functions that every script knows. -/
inductive Builtin where
  | createFile
  | deleteFile
  | readFile
  | writeFile
  | createDirectory
  | deleteDirectory
  | print
  | printError
  | printSuccess
  | clear
  | sleep
  | runTask
  | registerTask
  deriving DecidableEq, Repr

namespace Builtin

def name : Builtin → String
  | createFile => "createFile"
  | deleteFile => "deleteFile"
  | readFile => "readFile"
  | writeFile => "writeFile"
  | createDirectory => "createDirectory"
  | deleteDirectory => "deleteDirectory"
  | print => "print"
  | printError => "printError"
  | printSuccess => "printSuccess"
  | clear => "clear"
  | sleep => "sleep"
  | runTask => "runTask"
  | registerTask => "registerTask"

/-- The function that a name stands for when no variable does. -/
def ofName? : String → Option Builtin
  | "createFile" => some createFile
  | "deleteFile" => some deleteFile
  | "readFile" => some readFile
  | "writeFile" => some writeFile
  | "createDirectory" => some createDirectory
  | "deleteDirectory" => some deleteDirectory
  | "print" => some print
  | "printError" | "error" => some printError
  | "printSuccess" | "success" => some printSuccess
  | "clear" => some clear
  | "sleep" => some sleep
  | "runTask" => some runTask
  | "registerTask" => some registerTask
  | _ => none

end Builtin

/-- The place of a frame in the heap. -/
abbrev FrameId := Nat

inductive Value where
  | nil
  | bool (b : Bool)
  | number (x : Float)
  | str (s : String)
  | array (items : List Value)
  /-- Fields in the order of their names. -/
  | object (fields : List (String × Value))
  /-- A function of a script with the frame that it was made in. -/
  | function (code : Script.Function) (frame : FrameId)
  | builtin (b : Builtin)

namespace Value

/-- Whether a condition holds of the value. -/
def isTruthy : Value → Bool
  | .nil => false
  | .bool b => b
  | .number x => x != 0 && !x.isNaN
  | .str s => s ≠ ""
  | .array _ | .object _ | .function .. | .builtin _ => true

def typeName : Value → String
  | .nil => "nil"
  | .bool _ => "boolean"
  | .number _ => "number"
  | .str _ => "string"
  | .array _ => "array"
  | .object _ => "object"
  | .function .. | .builtin _ => "function"

def isCallable : Value → Bool
  | .function .. | .builtin _ => true
  | _ => false

mutual

/-- Equality of a script: the same type and the same contents. A function of a script equals
nothing. -/
def looseEq : Value → Value → Bool
  | .nil, .nil => true
  | .bool a, .bool b => a == b
  | .number x, .number y => x == y
  | .str a, .str b => a == b
  | .array xs, .array ys => looseEqItems xs ys
  | .object xs, .object ys => looseEqFields xs ys
  | .builtin a, .builtin b => a == b
  | _, _ => false

def looseEqItems : List Value → List Value → Bool
  | [], [] => true
  | x :: xs, y :: ys => looseEq x y && looseEqItems xs ys
  | _, _ => false

def looseEqFields : List (String × Value) → List (String × Value) → Bool
  | [], [] => true
  | (k, x) :: xs, (k', y) :: ys => k == k' && looseEq x y && looseEqFields xs ys
  | _, _ => false

end

/-- A number as JSON: exact when it is whole and below `9 · 10 ^ 15`, and null when not finite. -/
def numberJson (x : Float) : Json :=
  match Number.whole? x with
  | some n => if n.natAbs < 9 * Nat.pow 10 15 then .whole n else .real x
  | none => if x.isFinite then .real x else .null

mutual

def toJson : Value → Json
  | .nil => .null
  | .bool b => .bool b
  | .number x => numberJson x
  | .str s => .string s
  | .array items => .array (toJsonItems items)
  | .object fields => .object (toJsonFields fields)
  | .function .. | .builtin _ => .null

def toJsonItems : List Value → List Json
  | [] => []
  | v :: rest => toJson v :: toJsonItems rest

def toJsonFields : List (String × Value) → List (String × Json)
  | [] => []
  | (k, v) :: rest => (k, toJson v) :: toJsonFields rest

end

mutual

/-- The value that JSON describes; every number becomes a float. -/
def ofJson : Json → Value
  | .null | .unreadable => .nil
  | .bool b => .bool b
  | .whole n => .number (.ofInt n)
  | .real x => .number x
  | .string s => .str s
  | .array items => .array (ofJsonItems items)
  | .object fields => .object (Keyed.ofList (ofJsonFields fields))

def ofJsonItems : List Json → List Value
  | [] => []
  | v :: rest => ofJson v :: ofJsonItems rest

def ofJsonFields : List (String × Json) → List (String × Value)
  | [] => []
  | (k, v) :: rest => (k, ofJson v) :: ofJsonFields rest

end

mutual

/-- The text of a value in a string. -/
def display : Value → String
  | .nil => "null"
  | .bool b => if b then "true" else "false"
  | .number x => Number.display x
  | .str s => s
  | .array items => displayItems items
  | .object fields => (toJson (.object fields)).compact
  | .function code _ =>
    match code.name with
    | some name => "[function " ++ name ++ "]"
    | none => "[function]"
  | .builtin b => "[function " ++ b.name ++ "]"

def displayItems : List Value → String
  | [] => ""
  | [v] => display v
  | v :: rest => display v ++ "," ++ displayItems rest

end

/-- The text that `print` shows: arrays and objects come in lines. -/
def printText (v : Value) : String :=
  match v with
  | .array _ | .object _ => v.toJson.pretty
  | _ => v.display

/-- What a handler sees of a failure. -/
def failure (message : String) : Value :=
  .object [("message", .str message)]

end Value

end ScriptedNotes.Run
