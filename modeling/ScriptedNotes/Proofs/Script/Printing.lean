import Mathlib.Tactic.Common
import ScriptedNotes.Script.Grammar

/-!
The canonical printer of programs. It writes tokens and line breaks: each statement begins a line,
the body of a block stands between braces on lines of its own, and each operand that is more than a
literal or a name stands in parentheses. Whether the target of an assignment stands in parentheses
as well is left open (`wrapTargets`).
-/

namespace ScriptedNotes.Script

/-- What a printer writes. -/
inductive Piece where
  | token (t : Token)
  | lineBreak

namespace Piece

/-- A symbol, a keyword or a name of a text that is written. -/
abbrev symbol (s : Symbol) : Piece := .token (.symbol s)

abbrev keyword (k : Keyword) : Piece := .token (.keyword k)

abbrev name (s : String) : Piece := .token (.name s)

end Piece

/-- The tokens of pieces and their lines, when the first piece stands on a line. -/
def printed (line : Nat) : List Piece → List (Token × Nat)
  | [] => []
  | .token t :: ps => (t, line) :: printed line ps
  | .lineBreak :: ps => printed (line + 1) ps

/-! ### Tokens of a program -/

/-- The inside of a literal that says a text: backslashes, quotes and line feeds are escaped. -/
def escape : List Char → List Char
  | [] => []
  | c :: s =>
    if c = '\\' ∨ c = '"' then '\\' :: c :: escape s
    else if c = '\n' then '\\' :: 'n' :: escape s
    else c :: escape s

/-- A string literal for a text. -/
def literalOf (s : String) : Token := .string (.ofList (escape s.toList))

def UnaryOp.token : UnaryOp → Token
  | .not => .symbol .bang
  | .neg => .symbol .minus

def BinaryOp.token : BinaryOp → Token
  | .add => .symbol .plus
  | .sub => .symbol .minus
  | .mul => .symbol .star
  | .div => .symbol .slash
  | .rem => .symbol .percent
  | .eq => .symbol .eq
  | .notEq => .symbol .notEq
  | .lt => .symbol .lt
  | .le => .symbol .le
  | .gt => .symbol .gt
  | .ge => .symbol .ge
  | .and => .symbol .and
  | .or => .symbol .or

/-! ### Layout -/

/-- Pieces in parentheses. -/
def parenthesised (ps : List Piece) : List Piece :=
  .symbol .openParen :: (ps ++ [.symbol .closeParen])

/-- An operand: it stands in parentheses unless it is a literal or a name. -/
def operandOf (atomic : Bool) (ps : List Piece) : List Piece :=
  if atomic then ps else parenthesised ps

/-- Groups of pieces with commas between them. -/
def separated : List (List Piece) → List Piece
  | [] => []
  | [ps] => ps
  | ps :: qs :: rest => ps ++ .symbol .comma :: separated (qs :: rest)

/-- A list of parameters. -/
def paramList (params : List String) : List Piece :=
  parenthesised (separated (params.map fun p => [.name p]))

/-- Lines in braces. -/
def braced (lines : List Piece) : List Piece :=
  .symbol .openBrace :: (lines ++ [.lineBreak, .symbol .closeBrace])

/-- Literals and names. -/
def Expr.isAtom : Expr → Bool
  | .number _ | .str _ | .bool _ | .nil | .ident _ => true
  | _ => false

/-! ### The printer -/

section

variable (wrapTargets : Bool)

mutual

/-- An expression without parentheses around it. -/
def bare : Expr → List Piece
  | .number x => [.token (.number x)]
  | .str s => [.token (literalOf s)]
  | .template _ => []
  | .bool true => [.keyword .trueKw]
  | .bool false => [.keyword .falseKw]
  | .nil => [.keyword .nilKw]
  | .array items =>
    .symbol .openBracket :: (separated (operands items) ++ [.symbol .closeBracket])
  | .ident s => [.name s]
  | .unary op e => .token op.token :: operandOf e.isAtom (bare e)
  | .binary op left right =>
    operandOf left.isAtom (bare left) ++ .token op.token :: operandOf right.isAtom (bare right)
  | .call callee args =>
    operandOf callee.isAtom (bare callee) ++ parenthesised (separated (operands args))
  | .member object property =>
    operandOf object.isAtom (bare object) ++ [.symbol .dot, .name property]
  | .index object index =>
    operandOf object.isAtom (bare object) ++
      .symbol .openBracket :: (operandOf index.isAtom (bare index) ++ [.symbol .closeBracket])
  | .lambda code => .keyword .fnKw :: printFunction code

def operands : List Expr → List (List Piece)
  | [] => []
  | e :: rest => operandOf e.isAtom (bare e) :: operands rest

/-- A function from its name on, which it may lack. -/
def printFunction : Function → List Piece
  | .mk (some s) params body => .name s :: (paramList params ++ braced (printStmts body))
  | .mk none params body => paramList params ++ braced (printStmts body)

def printStmt : Stmt → List Piece
  | .declare constant var none =>
    [.keyword (if constant then .constKw else .letKw), .name var]
  | .declare constant var (some e) =>
    .keyword (if constant then .constKw else .letKw) :: .name var :: .symbol .assign ::
      operandOf e.isAtom (bare e)
  | .assign target value =>
    operandOf (!wrapTargets || target.isAtom) (bare target) ++
      .symbol .assign :: operandOf value.isAtom (bare value)
  | .expr e => parenthesised (bare e)
  | .cond [] _ => []
  | .cond (branch :: branches) otherwise =>
    .keyword .ifKw :: (printBranch branch ++ (printBranches branches ++ printOtherwise otherwise))
  | .forRange var start stop body =>
    .keyword .forKw :: .name var :: .keyword .inKw :: (operandOf start.isAtom (bare start) ++
      .symbol .dotDot :: (operandOf stop.isAtom (bare stop) ++ braced (printStmts body)))
  | .forEach var items body =>
    .keyword .forKw :: .name var :: .keyword .inKw ::
      (operandOf items.isAtom (bare items) ++ braced (printStmts body))
  | .while condition body =>
    .keyword .whileKw :: (operandOf condition.isAtom (bare condition) ++ braced (printStmts body))
  | .try body handler =>
    .keyword .tryKw :: (braced (printStmts body) ++
      .keyword .catchKw :: braced (printStmts handler))
  | .function code => .keyword .fnKw :: printFunction code
  | .return none => [.keyword .returnKw]
  | .return (some e) => .keyword .returnKw :: operandOf e.isAtom (bare e)
  | .throw e => .keyword .throwKw :: operandOf e.isAtom (bare e)
  | .break => [.keyword .breakKw]
  | .continue => [.keyword .continueKw]

/-- Statements, each on a new line. -/
def printStmts : List Stmt → List Piece
  | [] => []
  | s :: rest => .lineBreak :: (printStmt s ++ printStmts rest)

def printBranch : Branch → List Piece
  | .mk condition body => operandOf condition.isAtom (bare condition) ++ braced (printStmts body)

/-- The branches behind the first. -/
def printBranches : List Branch → List Piece
  | [] => []
  | branch :: rest => .keyword .elifKw :: (printBranch branch ++ printBranches rest)

def printOtherwise : Option (List Stmt) → List Piece
  | none => []
  | some body => .keyword .elseKw :: braced (printStmts body)

end

end

/-- An expression as an operand. -/
def operand (wrapTargets : Bool) (e : Expr) : List Piece :=
  operandOf e.isAtom (bare wrapTargets e)

/-- The body of a function or a branch. -/
def printBlock (wrapTargets : Bool) (body : List Stmt) : List Piece :=
  braced (printStmts wrapTargets body)

section

variable (w : Bool)

lemma operands_eq_map (es : List Expr) : operands w es = es.map (operand w) := by
  induction es with
  | nil => rfl
  | cons e es ih => rw [operands, ih, List.map_cons, operand]

lemma bare_array (items : List Expr) : bare w (.array items) =
    .symbol .openBracket :: (separated (items.map (operand w)) ++ [.symbol .closeBracket]) := by
  rw [bare, operands_eq_map]

lemma bare_unary (op : UnaryOp) (e : Expr) :
    bare w (.unary op e) = .token op.token :: operand w e := rfl

lemma bare_binary (op : BinaryOp) (l r : Expr) :
    bare w (.binary op l r) = operand w l ++ .token op.token :: operand w r := rfl

lemma bare_call (callee : Expr) (args : List Expr) : bare w (.call callee args) =
    operand w callee ++ parenthesised (separated (args.map (operand w))) := by
  rw [bare, operands_eq_map, operand]

lemma bare_member (object : Expr) (property : String) :
    bare w (.member object property) = operand w object ++ [.symbol .dot, .name property] := rfl

lemma bare_index (object index : Expr) : bare w (.index object index) =
    operand w object ++ .symbol .openBracket :: (operand w index ++ [.symbol .closeBracket]) := rfl

lemma bare_lambda (params : List String) (body : List Stmt) :
    bare w (.lambda (.mk none params body)) =
      .keyword .fnKw :: (paramList params ++ printBlock w body) := rfl

/-- The left side of an assignment. -/
def printTarget (target : Expr) : List Piece :=
  operandOf (!w || target.isAtom) (bare w target)

lemma printStmt_declare (constant : Bool) (var : String) (e : Expr) :
    printStmt w (.declare constant var (some e)) =
      .keyword (if constant then .constKw else .letKw) :: .name var :: .symbol .assign ::
        operand w e := rfl

lemma printStmt_assign (target value : Expr) : printStmt w (.assign target value) =
    printTarget w target ++ .symbol .assign :: operand w value := rfl

lemma printStmt_cond (condition : Expr) (body : List Stmt) (branches : List Branch)
    (otherwise : Option (List Stmt)) :
    printStmt w (.cond (.mk condition body :: branches) otherwise) =
      .keyword .ifKw :: (operand w condition ++ printBlock w body ++
        (printBranches w branches ++ printOtherwise w otherwise)) := rfl

lemma printStmt_forRange (var : String) (start stop : Expr) (body : List Stmt) :
    printStmt w (.forRange var start stop body) =
      .keyword .forKw :: .name var :: .keyword .inKw :: (operand w start ++
        .symbol .dotDot :: (operand w stop ++ printBlock w body)) := rfl

lemma printStmt_forEach (var : String) (items : Expr) (body : List Stmt) :
    printStmt w (.forEach var items body) =
      .keyword .forKw :: .name var :: .keyword .inKw :: (operand w items ++ printBlock w body) :=
  rfl

lemma printStmt_while (condition : Expr) (body : List Stmt) :
    printStmt w (.while condition body) =
      .keyword .whileKw :: (operand w condition ++ printBlock w body) := rfl

lemma printStmt_try (body handler : List Stmt) : printStmt w (.try body handler) =
    .keyword .tryKw :: (printBlock w body ++ .keyword .catchKw :: printBlock w handler) := rfl

lemma printStmt_function (s : String) (params : List String) (body : List Stmt) :
    printStmt w (.function (.mk (some s) params body)) =
      .keyword .fnKw :: .name s :: (paramList params ++ printBlock w body) := rfl

lemma printStmt_return (e : Expr) :
    printStmt w (.return (some e)) = .keyword .returnKw :: operand w e := rfl

lemma printStmt_throw (e : Expr) : printStmt w (.throw e) = .keyword .throwKw :: operand w e := rfl

lemma printBranches_cons (condition : Expr) (body : List Stmt) (branches : List Branch) :
    printBranches w (.mk condition body :: branches) =
      .keyword .elifKw :: (operand w condition ++ printBlock w body ++ printBranches w branches) :=
  rfl

lemma printOtherwise_some (body : List Stmt) :
    printOtherwise w (some body) = .keyword .elseKw :: printBlock w body := rfl

end

/-! ### What can be printed -/

mutual

/-- Whether an expression can be printed: it holds no string with expressions in braces, functions
in it have no names, and its statements can be printed. -/
def Expr.printable : Expr → Bool
  | .number _ | .str _ | .bool _ | .nil | .ident _ => true
  | .template _ => false
  | .array items => printableExprs items
  | .unary _ e => e.printable
  | .binary _ left right => left.printable && right.printable
  | .call callee args => callee.printable && printableExprs args
  | .member object _ => object.printable
  | .index object index => object.printable && index.printable
  | .lambda (.mk name _ body) => name.isNone && printableStmts body

def printableExprs : List Expr → Bool
  | [] => true
  | e :: rest => e.printable && printableExprs rest

/-- Whether a statement can be printed: conditions have a branch, targets of assignments are names,
members or indices, and functions have names. -/
def Stmt.printable : Stmt → Bool
  | .declare _ _ none | .return none | .break | .continue => true
  | .declare _ _ (some e) | .return (some e) | .expr e | .throw e => e.printable
  | .assign target value => target.isTarget && target.printable && value.printable
  | .cond branches none => !branches.isEmpty && printableBranches branches
  | .cond branches (some body) =>
    !branches.isEmpty && printableBranches branches && printableStmts body
  | .forRange _ start stop body => start.printable && stop.printable && printableStmts body
  | .forEach _ items body => items.printable && printableStmts body
  | .while condition body => condition.printable && printableStmts body
  | .try body handler => printableStmts body && printableStmts handler
  | .function (.mk name _ body) => name.isSome && printableStmts body

def printableStmts : List Stmt → Bool
  | [] => true
  | s :: rest => s.printable && printableStmts rest

def printableBranches : List Branch → Bool
  | [] => true
  | .mk condition body :: rest =>
    condition.printable && printableStmts body && printableBranches rest

end

end ScriptedNotes.Script
