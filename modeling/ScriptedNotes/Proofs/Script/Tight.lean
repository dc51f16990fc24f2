import ScriptedNotes.Proofs.Script.Escaping
import ScriptedNotes.Proofs.Script.Printing

/-!
The sparing printer of expressions. It writes an expression on one line, with parentheses only where
the expression would fall apart without them: around an operand that holds together less tightly
than the place where it stands asks for.
-/

namespace ScriptedNotes.Script

/-- How tightly an expression holds together. -/
def Expr.level : Expr → Nat
  | .lambda _ => 0
  | .binary op _ _ => op.level
  | .unary .. => 7
  | .call .. | .member .. | .index .. => 8
  | _ => 9

/-- What is written for an expression where one of a level is asked for. -/
def fitted (level : Nat) (e : Expr) (ps : List Piece) : List Piece :=
  operandOf (level ≤ e.level) ps

mutual

/-- An expression with no more parentheses than it needs. -/
def tight : Expr → List Piece
  | .number x => [.token (.number x)]
  | .str s => [.token (.string (.ofList (escaped true s.toList)))]
  | .template _ => []
  | .bool true => [.keyword .trueKw]
  | .bool false => [.keyword .falseKw]
  | .nil => [.keyword .nilKw]
  | .array items =>
    .symbol .openBracket :: (separated (tightAll items) ++ [.symbol .closeBracket])
  | .ident s => [.name s]
  | .unary op e => .token op.token :: fitted 7 e (tight e)
  | .binary op left right =>
    fitted op.level left (tight left) ++
      .token op.token :: fitted (op.level + 1) right (tight right)
  | .call callee args => fitted 8 callee (tight callee) ++ parenthesised (separated (tightAll args))
  | .member object property => fitted 8 object (tight object) ++ [.symbol .dot, .name property]
  | .index object index =>
    fitted 8 object (tight object) ++
      .symbol .openBracket :: (tight index ++ [.symbol .closeBracket])
  | .lambda code => .keyword .fnKw :: tightFunction code

def tightFunction : Function → List Piece
  | .mk none params [.return (some body)] => paramList params ++ .symbol .arrow :: tight body
  | _ => []

def tightAll : List Expr → List (List Piece)
  | [] => []
  | e :: rest => tight e :: tightAll rest

end

/-- The expressions that can be written on one line: they hold no string with expressions in braces,
and their functions have no names and only return the value of an expression. -/
inductive OneLine : Expr → Prop
  | number (x : Float) : OneLine (.number x)
  | str (s : String) : OneLine (.str s)
  | bool (b : Bool) : OneLine (.bool b)
  | nil : OneLine .nil
  | ident (s : String) : OneLine (.ident s)
  | array {items : List Expr} : (∀ e ∈ items, OneLine e) → OneLine (.array items)
  | unary (op : UnaryOp) {e : Expr} : OneLine e → OneLine (.unary op e)
  | binary (op : BinaryOp) {left right : Expr} :
    OneLine left → OneLine right → OneLine (.binary op left right)
  | call {callee : Expr} {args : List Expr} :
    OneLine callee → (∀ e ∈ args, OneLine e) → OneLine (.call callee args)
  | member {object : Expr} (property : String) : OneLine object → OneLine (.member object property)
  | index {object index : Expr} : OneLine object → OneLine index → OneLine (.index object index)
  | lambda (params : List String) {body : Expr} :
    OneLine body → OneLine (.lambda (.mk none params [.return (some body)]))

/-- Only the right operand of a subtraction needs its parentheses. -/
example : tight (.binary .sub (.binary .sub (.ident "a") (.ident "b"))
    (.binary .sub (.ident "c") (.ident "d"))) =
    [.name "a", .symbol .minus, .name "b", .symbol .minus, .symbol .openParen, .name "c",
      .symbol .minus, .name "d", .symbol .closeParen] := rfl

lemma tightAll_eq_map (es : List Expr) : tightAll es = es.map tight := by
  induction es with
  | nil => rfl
  | cons e es ih => rw [tightAll, ih, List.map_cons]

/-! ### One line -/

/-- Whether pieces are tokens only. -/
def Unbroken (ps : List Piece) : Prop :=
  ∀ p ∈ ps, ∃ t, p = .token t

namespace Unbroken

variable {ps qs : List Piece} {t : Token}

lemma nil : Unbroken [] := List.forall_mem_nil _

lemma token (h : Unbroken ps) : Unbroken (.token t :: ps) :=
  List.forall_mem_cons.2 ⟨⟨t, rfl⟩, h⟩

lemma append (h : Unbroken ps) (h' : Unbroken qs) : Unbroken (ps ++ qs) :=
  List.forall_mem_append.2 ⟨h, h'⟩

lemma parenthesised (h : Unbroken ps) : Unbroken (parenthesised ps) :=
  (h.append nil.token).token

lemma fitted {level : Nat} {e : Expr} (h : Unbroken ps) : Unbroken (fitted level e ps) := by
  unfold Script.fitted operandOf
  split
  · exact h
  · exact h.parenthesised

lemma separated : ∀ {groups : List (List Piece)}, (∀ ps ∈ groups, Unbroken ps) →
    Unbroken (separated groups)
  | [], _ => nil
  | [ps], h => h ps List.mem_cons_self
  | ps :: qs :: rest, h => by
    obtain ⟨hps, hrest⟩ := List.forall_mem_cons.1 h
    exact hps.append (separated hrest).token

lemma paramList (params : List String) : Unbroken (paramList params) := by
  refine parenthesised (separated ?_)
  simp only [List.mem_map, forall_exists_index, and_imp, forall_apply_eq_imp_iff₂]
  exact fun _ _ => nil.token

end Unbroken

/-- What is written is one line. -/
lemma unbroken_tight {e : Expr} (h : OneLine e) : Unbroken (tight e) := by
  induction h with
  | bool b => cases b <;> exact Unbroken.nil.token
  | number | str | nil | ident => exact Unbroken.nil.token
  | array _ ih =>
    rw [tight, tightAll_eq_map]
    exact ((Unbroken.separated (List.forall_mem_map.2 ih)).append Unbroken.nil.token).token
  | unary op _ ih => exact ih.fitted.token
  | binary op _ _ ihl ihr => exact ihl.fitted.append ihr.fitted.token
  | call _ _ ih ihargs =>
    rw [tight, tightAll_eq_map]
    exact ih.fitted.append (Unbroken.separated (List.forall_mem_map.2 ihargs)).parenthesised
  | member property _ ih => exact ih.fitted.append Unbroken.nil.token.token
  | index _ _ ih ihindex => exact ih.fitted.append (ihindex.append Unbroken.nil.token).token
  | lambda params _ ih => exact ((Unbroken.paramList params).append ih.token).token

/-- All tokens of an unbroken text stand on its line. -/
lemma Unbroken.line_eq {ps : List Piece} (h : Unbroken ps) (line : Nat) :
    ∀ m ∈ printed line ps, m.2 = line := by
  induction ps with
  | nil => exact List.forall_mem_nil _
  | cons p ps ih =>
    obtain ⟨⟨t, rfl⟩, hps⟩ := List.forall_mem_cons.1 h
    exact List.forall_mem_cons.2 ⟨rfl, ih hps⟩

end ScriptedNotes.Script
