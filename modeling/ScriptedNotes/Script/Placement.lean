import ScriptedNotes.Script.SyntaxError
import ScriptedNotes.Script.Syntax

/-!
Where control flow may stand: `return` inside a function, `break` and `continue` inside a loop of
the same function. A program that passes has nowhere else to go.
-/

namespace ScriptedNotes.Script

/-- What surrounds a statement. -/
structure Place where
  inFunction : Bool := false
  inLoop : Bool := false

def Place.function : Place := ⟨true, false⟩

def Place.loop (p : Place) : Place := ⟨p.inFunction, true⟩

mutual

def placedExpr : Expr → Except SyntaxError Unit
  | .lambda code => placedFunction code
  | .template parts => placedParts parts
  | .array items => placedExprs items
  | .unary _ operand => placedExpr operand
  | .binary _ left right => do
    placedExpr left
    placedExpr right
  | .call callee args => do
    placedExpr callee
    placedExprs args
  | .member object _ => placedExpr object
  | .index object index => do
    placedExpr object
    placedExpr index
  | .number _ | .str _ | .bool _ | .nil | .ident _ => .ok ()

def placedExprs : List Expr → Except SyntaxError Unit
  | [] => .ok ()
  | e :: rest => do
    placedExpr e
    placedExprs rest

def placedParts : List TemplatePart → Except SyntaxError Unit
  | [] => .ok ()
  | part :: rest => do
    placedPart part
    placedParts rest

def placedPart : TemplatePart → Except SyntaxError Unit
  | .text _ => .ok ()
  | .expr e => placedExpr e

def placedFunction : Function → Except SyntaxError Unit
  | .mk _ _ body => placedStmts .function body

/-- Checks a statement in its place. -/
def placedStmt (p : Place) : Stmt → Except SyntaxError Unit
  | .declare _ _ none => .ok ()
  | .declare _ _ (some e) => placedExpr e
  | .assign target value => do
    placedExpr target
    placedExpr value
  | .expr e => placedExpr e
  | .throw e => placedExpr e
  | .cond branches none => placedBranches p branches
  | .cond branches (some body) => do
    placedBranches p branches
    placedStmts p body
  | .forRange _ start stop body => do
    placedExpr start
    placedExpr stop
    placedStmts p.loop body
  | .forEach _ items body => do
    placedExpr items
    placedStmts p.loop body
  | .while condition body => do
    placedExpr condition
    placedStmts p.loop body
  | .try body handler => do
    placedStmts p body
    placedStmts p handler
  | .function code => placedFunction code
  | .return none => if p.inFunction then .ok () else .error .strayReturn
  | .return (some e) => if p.inFunction then placedExpr e else .error .strayReturn
  | .break => if p.inLoop then .ok () else .error .strayBreak
  | .continue => if p.inLoop then .ok () else .error .strayContinue

def placedStmts (p : Place) : List Stmt → Except SyntaxError Unit
  | [] => .ok ()
  | s :: rest => do
    placedStmt p s
    placedStmts p rest

def placedBranches (p : Place) : List Branch → Except SyntaxError Unit
  | [] => .ok ()
  | branch :: rest => do
    placedBranch p branch
    placedBranches p rest

def placedBranch (p : Place) : Branch → Except SyntaxError Unit
  | .mk condition body => do
    placedExpr condition
    placedStmts p body

end

end ScriptedNotes.Script
