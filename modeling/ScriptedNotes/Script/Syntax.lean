/-!
The syntax of scripts. The two short dialects yield plain calls; the full language uses all of it.
-/

namespace ScriptedNotes.Script

inductive UnaryOp where
  | not
  | neg
  deriving DecidableEq, Repr

inductive BinaryOp where
  | add
  | sub
  | mul
  | div
  | rem
  | eq
  | notEq
  | lt
  | le
  | gt
  | ge
  | and
  | or
  deriving DecidableEq, Repr

def BinaryOp.symbol : BinaryOp → String
  | .add => "+"
  | .sub => "-"
  | .mul => "*"
  | .div => "/"
  | .rem => "%"
  | .eq => "=="
  | .notEq => "!="
  | .lt => "<"
  | .le => "<="
  | .gt => ">"
  | .ge => ">="
  | .and => "&&"
  | .or => "||"

mutual

inductive Expr where
  | number (x : Float)
  | str (s : String)
  /-- A string with expressions in braces. -/
  | template (parts : List TemplatePart)
  | bool (b : Bool)
  | nil
  | array (items : List Expr)
  | ident (name : String)
  | unary (op : UnaryOp) (operand : Expr)
  | binary (op : BinaryOp) (left right : Expr)
  | call (callee : Expr) (args : List Expr)
  | member (object : Expr) (property : String)
  | index (object index : Expr)
  | lambda (code : Function)

inductive TemplatePart where
  | text (s : String)
  | expr (e : Expr)

/-- A function, named or not. -/
inductive Function where
  | mk (name : Option String) (params : List String) (body : List Stmt)

inductive Stmt where
  | declare (constant : Bool) (name : String) (value : Option Expr)
  | assign (target value : Expr)
  | expr (e : Expr)
  | cond (branches : List Branch) (otherwise : Option (List Stmt))
  /-- Both bounds belong to the range. -/
  | forRange (var : String) (start stop : Expr) (body : List Stmt)
  | forEach (var : String) (items : Expr) (body : List Stmt)
  | while (condition : Expr) (body : List Stmt)
  /-- The handler sees the failure under the name `error`. -/
  | try (body handler : List Stmt)
  | function (code : Function)
  | return (value : Option Expr)
  | throw (e : Expr)
  | break
  | continue

/-- A condition and what is done when it holds. -/
inductive Branch where
  | mk (condition : Expr) (body : List Stmt)

end

namespace Function

def name : Function → Option String
  | .mk name _ _ => name

def params : Function → List String
  | .mk _ params _ => params

def body : Function → List Stmt
  | .mk _ _ body => body

end Function

/-- The call of a named function. -/
def Expr.callNamed (name : String) (args : List Expr) : Expr :=
  .call (.ident name) args

/-- A program is a list of statements. -/
abbrev Program := List Stmt

/-- The name of the failure inside a handler. -/
def failureName : String := "error"

end ScriptedNotes.Script
