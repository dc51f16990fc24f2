import ScriptedNotes.Run.Value

/-!
Operators, members and indices: what they give for their operands, or why they cannot. None of them
changes anything; an element of a container is set by making the container anew.
-/

namespace ScriptedNotes.Run

open Script (BinaryOp)

/-- An operator between operands that it has no meaning for. -/
def mismatch (op : BinaryOp) (left right : Value) : String :=
  "Cannot apply '" ++ op.symbol ++ "' to " ++ left.typeName ++ " and " ++ right.typeName

/-- How two numbers or two strings compare; nothing compares with what is not a number. -/
def ordering? (op : BinaryOp) (left right : Value) : Except String (Option Ordering) :=
  match left, right with
  | .number x, .number y =>
    .ok (if x < y then some .lt else if y < x then some .gt else if x == y then some .eq else none)
  | .str a, .str b => .ok (some (compare a b))
  | _, _ => .error (mismatch op left right)

/-- Whether an ordering is one that a comparison asks for. -/
def BinaryOp.accepts : BinaryOp → Ordering → Bool
  | .lt, o => o.isLT
  | .le, o => o.isLE
  | .gt, o => o.isGT
  | _, o => o.isGE

/-- A sum of numbers, or two texts joined when one operand is a string. -/
def sum (left right : Value) : Except String Value :=
  match left, right with
  | .number x, .number y => .ok (.number (x + y))
  | .str a, v => .ok (.str (a ++ v.display))
  | v, .str b => .ok (.str (v.display ++ b))
  | _, _ => .error (mismatch .add left right)

/-- An operation on two numbers. -/
def arithmetic (op : BinaryOp) (f : Float → Float → Float) (left right : Value) :
    Except String Value :=
  match left, right with
  | .number x, .number y => .ok (.number (f x y))
  | _, _ => .error (mismatch op left right)

/-- The value of an operator whose operands are both there. -/
def applyBinary (op : BinaryOp) (left right : Value) : Except String Value :=
  match op with
  | .add => sum left right
  | .sub => arithmetic op (· - ·) left right
  | .mul => arithmetic op (· * ·) left right
  | .div => arithmetic op (· / ·) left right
  | .rem => arithmetic op Number.remainder left right
  | .eq => .ok (.bool (left.looseEq right))
  | .notEq => .ok (.bool (!left.looseEq right))
  | .lt | .le | .gt | .ge => do
    let o ← ordering? op left right
    return .bool (o.any (BinaryOp.accepts op))
  | .and => .ok (if left.isTruthy then right else left)
  | .or => .ok (if left.isTruthy then left else right)

/-- The number of a value, or what is wrong with it. -/
def expectNumber (v : Value) (what : String) : Except String Float :=
  match v with
  | .number x => .ok x
  | _ => .error (what ++ " must be a number, got " ++ v.typeName)

/-- A member of a value: the length of strings and arrays, and the fields of objects. -/
def member (object : Value) (property : String) : Except String Value :=
  match object with
  | .str s => .ok (if property = "length" then .number (.ofNat s.length) else .nil)
  | .array items => .ok (if property = "length" then .number (.ofNat items.length) else .nil)
  | .object fields => .ok ((Keyed.get? property fields).getD .nil)
  | .nil => .error ("Cannot read property '" ++ property ++ "' of null")
  | _ => .ok .nil

/-- The place that a number names: it has to be whole, not negative, and below `2 ^ 53`. -/
def position? (x : Float) : Option Nat :=
  (Number.whole? x).bind fun n => if 0 ≤ n ∧ n < (Nat.pow 2 53 : Int) then some n.toNat else none

/-- An element of an array, a character of a string or a field of an object. -/
def elementOf (object index : Value) : Except String Value :=
  match object, index with
  | .array items, .number x => .ok (((position? x).bind (items[·]?)).getD .nil)
  | .str s, .number x =>
    .ok (((position? x).bind (s.toList[·]?)).elim .nil fun c => .str c.toString)
  | .object _, .str key => member object key
  | .nil, _ => .error "Cannot index null"
  | _, _ => .error ("Cannot index " ++ object.typeName ++ " with " ++ index.typeName)

/-- A step from a container to an element. -/
inductive Key where
  | field (name : String)
  | index (v : Value)

/-- How far past its end an array grows by an assignment. -/
def maxGap : Nat := 10000

/-- The items with at least `n` of them, the missing ones nil. -/
def padded (items : List Value) (n : Nat) : List Value :=
  items ++ List.replicate (n - items.length) .nil

/-- The container with the element at the end of a path set. -/
def setPath (container : Value) (path : List Key) (v : Value) : Except String Value :=
  match path with
  | [] => .ok v
  | key :: rest =>
    let inFields := fun (fields : List (String × Value)) (name : String) => do
      let element ← setPath ((Keyed.get? name fields).getD .nil) rest v
      return .object (Keyed.put name element fields)
    match container, key with
    | .object fields, .field name => inFields fields name
    | .object fields, .index (.str name) => inFields fields name
    | .array items, .index (.number x) =>
      match (position? x).filter fun i => i ≤ items.length + maxGap with
      | some i => do
        let items := padded items (i + 1)
        let element ← setPath (items[i]?.getD .nil) rest v
        return .array (items.set i element)
      | none => .error "Invalid array index"
    | _, _ => .error ("Cannot assign into " ++ container.typeName)

end ScriptedNotes.Run
