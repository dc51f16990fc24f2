import ScriptedNotes.Proofs.Script.Escaping
import ScriptedNotes.Proofs.Script.ReadingForms

/-!
Printed expressions are read back. `ReadsExpr` and `ReadsStmt` say that an expression and a
statement are; for each form of expression there is a lemma that it is read back when its parts are.
-/

namespace ScriptedNotes.Script

open Reader Text

/-! ### Literals -/

lemma plainLiteral_literalOf (s : String) (line : Nat) :
    plainLiteral (.ofList (escape s.toList)) line = .ok (.str s) := by
  simp [plainLiteral, escape_eq_escaped, unescape_escaped]

/-! ### Expressions -/

section

variable {wrap : Bool}

/-- An expression is read back, as an operand and bare. A fuel of sixteen for a token is enough. -/
structure ReadsExpr (wrap : Bool) (e : Expr) : Prop where
  primary {fuel : Nat} {previous : Option Nat} {line : Nat} {rest : List Piece} :
    16 * tokenCount (operand wrap e) ≤ fuel + 8 → nextToken rest ≠ some (.symbol .arrow) →
    Reads (primary plainLiteral fuel) (.facing previous line (operand wrap e ++ rest)) e rest
  bare {fuel : Nat} {previous : Option Nat} {line : Nat} {rest : List Piece} :
    16 * tokenCount (bare wrap e) + 8 ≤ fuel → Stops 1 rest →
    Reads (expressionAt plainLiteral fuel 1) (.facing previous line (bare wrap e ++ rest)) e rest

/-- What an operand begins with. -/
lemma operand_eq_cons (wrap : Bool) (e : Expr) : ∃ t ps, operand wrap e = .token t :: ps ∧
    t.isPrefix = false ∧ t.startsExpression = true ∧ t.beginsLine = true := by
  cases e with
  | number x => exact ⟨_, _, rfl, rfl, rfl, rfl⟩
  | str s => exact ⟨_, _, rfl, rfl, rfl, rfl⟩
  | bool b => cases b <;> exact ⟨_, _, rfl, rfl, rfl, rfl⟩
  | nil => exact ⟨_, _, rfl, rfl, rfl, rfl⟩
  | ident s => exact ⟨_, _, rfl, rfl, rfl, rfl⟩
  | _ => exact ⟨_, _, rfl, rfl, rfl, rfl⟩

lemma isPrefix_operand_head {previous : Option Nat} {line : Nat} {rest : List Piece} (e : Expr)
    (t : Token) (ht : (Cursor.facing previous line (operand wrap e ++ rest)).head? = some t) :
    t.isPrefix = false := by
  obtain ⟨u, ps, h, hu, -⟩ := operand_eq_cons wrap e
  rw [h] at ht
  cases ht
  exact hu

lemma tokenCount_operand_pos (wrap : Bool) (e : Expr) : 0 < tokenCount (operand wrap e) := by
  obtain ⟨t, ps, h, -⟩ := operand_eq_cons wrap e
  rw [h]
  exact Nat.succ_pos _

section

variable {e : Expr} {fuel level line : Nat} {previous : Option Nat} {rest : List Piece}

/-- An operand is read at every level before what ends an expression there. -/
lemma ReadsExpr.operandAt (h : ReadsExpr wrap e) (hlevel : level ≤ 7)
    (hfuel : 16 * tokenCount (operand wrap e) ≤ fuel) (hstops : Stops level rest) :
    Reads (expressionAt plainLiteral fuel level) (.facing previous line (operand wrap e ++ rest))
      e rest := by
  have hpos := tokenCount_operand_pos wrap e
  refine reads_expressionAt_down 7 hlevel (Nat.le_refl 7) (by omega) hstops ?_
  obtain ⟨f, hf⟩ : ∃ f, fuel - (7 - level) = f + 2 := ⟨fuel - (7 - level) - 2, by omega⟩
  rw [hf]
  refine reads_expressionAt_seven (isPrefix_operand_head e) (h.primary (by omega) hstops.arrow) ?_
  exact fun line => reads_suffixes_stop hstops

/-- An operand is read back where a whole expression may stand. -/
lemma ReadsExpr.readsBack (h : ReadsExpr wrap e) : ReadsBack plainLiteral (operand wrap) e := by
  obtain ⟨t, ps, hpieces, -, ht, -⟩ := operand_eq_cons wrap e
  exact ⟨⟨t, ps, hpieces, ht⟩, h.operandAt (by omega)⟩

/-- No list of parameters with an arrow begins with an operand and a token that is neither a comma
nor a closing parenthesis. -/
lemma arrowFollows_operand (e : Expr) {t : Token} (hclose : t ≠ .symbol .closeParen)
    (hcomma : t ≠ .symbol .comma) (line : Nat) (ps : List Piece) :
    arrowFollows true (placed line (operand wrap e ++ .token t :: ps)) = false := by
  cases e with
  | ident s => exact (Bool.true_and _).trans (arrowFollows_other hclose hcomma)
  | bool b => cases b <;> rfl
  | _ => rfl

/-- A bare expression in parentheses is no list of parameters with an arrow. -/
lemma arrowFollows_bare (e : Expr) (line : Nat) (h : nextToken rest ≠ some (.symbol .arrow)) :
    arrowFollows true (placed line (bare wrap e ++ .symbol .closeParen :: rest)) = false := by
  have hclose : ∀ line, arrowFollows false (placed line (.symbol .closeParen :: rest)) = false := by
    intro line
    rw [placed, arrowFollows]
    refine decide_eq_false ?_
    rw [← facing_head? (some line) line rest] at h
    exact h
  cases e with
  | ident s => exact (Bool.true_and _).trans (hclose line)
  | template parts => exact decide_eq_false (by
      rw [← facing_head? (some line) line rest] at h
      exact h)
  | bool b => cases b <;> rfl
  | binary op l r =>
    rw [bare, List.append_assoc, List.cons_append]
    exact arrowFollows_operand l (by cases op <;> simp [BinaryOp.token])
      (by cases op <;> simp [BinaryOp.token]) line _
  | call callee args =>
    rw [bare, List.append_assoc]
    exact arrowFollows_operand callee (by decide) (by decide) line _
  | member object property =>
    rw [bare, List.append_assoc]
    exact arrowFollows_operand object (by decide) (by decide) line _
  | index object index =>
    rw [bare, List.append_assoc]
    exact arrowFollows_operand object (by decide) (by decide) line _
  | unary op e => cases op <;> rfl
  | _ => rfl

end

/-! ### Blocks -/

/-- A statement is read back before a new line. -/
structure ReadsStmt (wrap : Bool) (s : Stmt) : Prop where
  begins : ∃ t ps, printStmt wrap s = .token t :: ps ∧ t.beginsLine = true ∧ t.closesBlock = false
  statement {fuel : Nat} {previous : Option Nat} {line : Nat} {rest : List Piece} :
    16 * tokenCount (printStmt wrap s) + 4 ≤ fuel → FreshLine rest →
    Reads (statement plainLiteral fuel) (.facing previous line (printStmt wrap s ++ rest)) s rest

section

variable {fuel line : Nat} {previous : Option Nat} {rest : List Piece} {body : List Stmt}

lemma freshLine_stmts (hbody : ∀ s ∈ body, ReadsStmt wrap s) (hrest : FreshLine rest) :
    FreshLine (printStmts wrap body ++ rest) := by
  match body with
  | [] => exact hrest
  | s :: body =>
    obtain ⟨t, ps, hpieces, hbegins, -⟩ := (hbody s List.mem_cons_self).begins
    rw [printStmts, hpieces]
    exact .line _ hbegins

lemma reads_blockRest {opened : Nat} (hbody : ∀ s ∈ body, ReadsStmt wrap s)
    (hfuel : 16 * tokenCount (printStmts wrap body) + 5 ≤ fuel) :
    Reads (blockRest plainLiteral fuel opened) (.facing previous line
      (printStmts wrap body ++ .lineBreak :: .symbol .closeBrace :: rest)) body rest := by
  induction body generalizing fuel previous line with
  | nil =>
    obtain ⟨f, rfl⟩ : ∃ f, fuel = f + 1 := ⟨fuel - 1, by omega⟩
    rw [printStmts, List.nil_append, facing_lineBreak, blockRest]
    exact .via (do skip; return []) rfl (.bind .skip fun _ => .pure)
  | cons s body ih =>
    obtain ⟨f, rfl⟩ : ∃ f, fuel = f + 1 := ⟨fuel - 1, by omega⟩
    obtain ⟨hs, hbody⟩ := List.forall_mem_cons.1 hbody
    obtain ⟨t, ps, hpieces, hbegins, hcloses⟩ := hs.begins
    have hpos : 0 < tokenCount (printStmt wrap s) := by
      rw [hpieces]
      exact Nat.succ_pos _
    rw [printStmts, tokenCount_lineBreak, tokenCount_append] at hfuel
    rw [printStmts, List.cons_append, List.append_assoc, facing_lineBreak]
    have hhead : (Cursor.facing previous (line + 1) (printStmt wrap s ++ (printStmts wrap body ++
        .lineBreak :: .symbol .closeBrace :: rest))).head? = some t := by
      rw [facing_head?, hpieces]
      rfl
    refine .via _ (blockRest_of_statement hhead hbegins hcloses) ?_
    have hfresh : FreshLine (printStmts wrap body ++ .lineBreak :: .symbol .closeBrace :: rest) :=
      freshLine_stmts hbody (.line _ rfl)
    exact .bind (hs.statement (by omega) hfresh) fun line =>
      .bind (ih hbody (by omega)) fun _ => .pure

/-- A block is read back. -/
lemma reads_block (hbody : ∀ s ∈ body, ReadsStmt wrap s)
    (hfuel : 16 * tokenCount (printBlock wrap body) ≤ fuel) :
    Reads (block plainLiteral fuel) (.facing previous line (printBlock wrap body ++ rest))
      body rest := by
  have hpieces : printBlock wrap body ++ rest = .symbol .openBrace ::
      (printStmts wrap body ++ .lineBreak :: .symbol .closeBrace :: rest) := by
    simp [printBlock, braced]
  simp only [printBlock, braced, tokenCount_token, tokenCount_append, tokenCount_lineBreak] at hfuel
  obtain ⟨f, rfl⟩ : ∃ f, fuel = f + 1 := ⟨fuel - 1, by omega⟩
  rw [hpieces, block]
  refine .via (do
    expect (.symbol .openBrace)
    blockRest plainLiteral f line) rfl ?_
  exact .bind .expect fun _ => reads_blockRest hbody (by omega)

end

/-! ### The forms of expressions -/

section

variable {fuel line : Nat} {previous : Option Nat} {rest : List Piece}

/-- A literal or a name needs only its token to be read. -/
lemma ReadsExpr.of_atom {e : Expr} (hatom : e.isAtom = true)
    (h : ∀ {fuel line : Nat} {previous : Option Nat} {rest : List Piece},
      nextToken rest ≠ some (.symbol .arrow) →
      Reads (Script.primary plainLiteral (fuel + 1))
        (.facing previous line (Script.bare wrap e ++ rest)) e rest) : ReadsExpr wrap e := by
  have hoperand : operand wrap e = Script.bare wrap e := if_pos hatom
  have hpos := tokenCount_operand_pos wrap e
  have hprimary : ∀ {fuel previous line rest}, 16 * tokenCount (operand wrap e) ≤ fuel + 8 →
      nextToken rest ≠ some (.symbol .arrow) →
      Reads (Script.primary plainLiteral fuel) (.facing previous line (operand wrap e ++ rest))
        e rest := by
    intro fuel previous line rest hfuel harrow
    obtain ⟨f, rfl⟩ : ∃ f, fuel = f + 1 := ⟨fuel - 1, by omega⟩
    rw [hoperand]
    exact h harrow
  refine ⟨hprimary, fun {fuel previous line rest} hfuel hstops => ?_⟩
  rw [← hoperand] at hfuel ⊢
  refine reads_expressionAt_down 7 (by omega) (Nat.le_refl 7) (by omega) hstops ?_
  obtain ⟨f, hf⟩ : ∃ f, fuel - (7 - 1) = f + 2 := ⟨fuel - (7 - 1) - 2, by omega⟩
  rw [hf]
  refine reads_expressionAt_seven (isPrefix_operand_head e) (hprimary (by omega) hstops.arrow) ?_
  exact fun line => reads_suffixes_stop hstops

/-- An expression in parentheses is read as a whole. -/
lemma ReadsExpr.grouped {e : Expr} (h : ReadsExpr wrap e)
    (hfuel : 16 * tokenCount (Script.bare wrap e) + 20 ≤ fuel) (hstops : Stops 1 rest) :
    Reads (expressionAt plainLiteral fuel 1)
      (.facing previous line (parenthesised (Script.bare wrap e) ++ rest)) e rest := by
  refine reads_expressionAt_down 7 (by omega) (Nat.le_refl 7) (by omega) hstops ?_
  obtain ⟨f, hf⟩ : ∃ f, fuel - (7 - 1) = f + 3 := ⟨fuel - (7 - 1) - 3, by omega⟩
  rw [hf]
  refine reads_expressionAt_seven (fun t ht => by cases ht; rfl) ?_ fun line =>
    reads_suffixes_stop hstops
  exact reads_group (arrowFollows_bare e line hstops.arrow) fun line =>
    h.bare (by omega) (.token rfl)

/-- Any other expression is read as an operand when it is read bare. -/
lemma ReadsExpr.of_compound {e : Expr} (hatom : e.isAtom = false)
    (h : ∀ {fuel line : Nat} {previous : Option Nat} {rest : List Piece},
      16 * tokenCount (Script.bare wrap e) + 8 ≤ fuel → Stops 1 rest →
      Reads (expressionAt plainLiteral fuel 1)
        (.facing previous line (Script.bare wrap e ++ rest)) e rest) : ReadsExpr wrap e := by
  refine ⟨fun {fuel previous line rest} hfuel harrow => ?_, h⟩
  have hoperand : operand wrap e = parenthesised (Script.bare wrap e) :=
    if_neg (by rw [hatom]; exact Bool.false_ne_true)
  rw [hoperand] at hfuel ⊢
  simp only [parenthesised, tokenCount_token, tokenCount_append] at hfuel
  obtain ⟨f, rfl⟩ : ∃ f, fuel = f + 1 := ⟨fuel - 1, by omega⟩
  exact reads_group (arrowFollows_bare e line harrow) fun line =>
    h (by omega) (Stops.token rfl)

lemma readsExpr_number (x : Float) : ReadsExpr wrap (.number x) :=
  .of_atom rfl fun _ => reads_number

lemma readsExpr_str (s : String) : ReadsExpr wrap (.str s) :=
  .of_atom rfl fun _ => reads_string (plainLiteral_literalOf s)

lemma readsExpr_bool (b : Bool) : ReadsExpr wrap (.bool b) := by
  refine .of_atom rfl fun _ => ?_
  cases b with
  | true => exact reads_true
  | false => exact reads_false

lemma readsExpr_nil : ReadsExpr wrap .nil :=
  .of_atom rfl fun _ => reads_nil

lemma readsExpr_ident (s : String) : ReadsExpr wrap (.ident s) :=
  .of_atom rfl reads_ident

lemma readsExpr_unary (op : UnaryOp) {e : Expr} (he : ReadsExpr wrap e) :
    ReadsExpr wrap (.unary op e) := by
  refine .of_compound rfl fun {fuel line previous rest} hfuel hstops => ?_
  rw [bare_unary] at hfuel ⊢
  simp only [tokenCount_token] at hfuel
  refine reads_expressionAt_down 7 (by omega) (Nat.le_refl 7) (by omega) hstops ?_
  obtain ⟨f, hf⟩ : ∃ f, fuel - (7 - 1) = f + 1 := ⟨fuel - (7 - 1) - 1, by omega⟩
  rw [hf]
  refine .via (do skip; return .unary op (← expressionAt plainLiteral f 7)) ?_ ?_
  · cases op <;> rfl
  · refine .bind .skip fun line => ?_
    exact .bind (he.operandAt (Nat.le_refl 7) (by omega) (hstops.mono (by omega))) fun _ => .pure

lemma readsExpr_binary (op : BinaryOp) {l r : Expr} (hl : ReadsExpr wrap l)
    (hr : ReadsExpr wrap r) : ReadsExpr wrap (.binary op l r) := by
  obtain ⟨hpos, hle⟩ := op.level_le
  refine .of_compound rfl fun {fuel line previous rest} hfuel hstops => ?_
  rw [bare_binary] at hfuel ⊢
  simp only [tokenCount_token, tokenCount_append] at hfuel
  refine reads_expressionAt_down op.level (by omega) (by omega) (by omega) hstops ?_
  obtain ⟨f, hf⟩ : ∃ f, fuel - (op.level - 1) = f + 2 := ⟨fuel - (op.level - 1) - 2, by omega⟩
  rw [hf, List.append_assoc, List.cons_append, expressionAt, if_pos hle]
  refine .bind (hl.operandAt (by omega) (by omega) (.operatorToken op)) fun line => ?_
  refine .via _ (operatorChain_token op) (.bind .skip fun line => ?_)
  refine .bind (hr.operandAt (by omega) (by omega) (hstops.mono (by omega))) fun line => ?_
  obtain ⟨f, rfl⟩ : ∃ g, f = g + 1 := ⟨f - 1, by omega⟩
  exact reads_operatorChain_stop (hstops.mono hpos)

lemma readsExpr_member {object : Expr} (property : String) (ho : ReadsExpr wrap object) :
    ReadsExpr wrap (.member object property) := by
  refine .of_compound rfl fun {fuel line previous rest} hfuel hstops => ?_
  rw [bare_member] at hfuel ⊢
  simp only [tokenCount_token, tokenCount_append] at hfuel
  refine reads_expressionAt_down 7 (by omega) (Nat.le_refl 7) (by omega) hstops ?_
  obtain ⟨f, hf⟩ : ∃ f, fuel - (7 - 1) = f + 3 := ⟨fuel - (7 - 1) - 3, by omega⟩
  rw [hf, List.append_assoc]
  refine reads_expressionAt_seven (isPrefix_operand_head object) (ho.primary (by omega) ?_) ?_
  · exact fun h => by cases h
  exact fun line => reads_suffixes_member fun line => reads_suffixes_stop hstops

lemma readsExpr_call {callee : Expr} {args : List Expr} (hc : ReadsExpr wrap callee)
    (hargs : ∀ e ∈ args, ReadsExpr wrap e) : ReadsExpr wrap (.call callee args) := by
  refine .of_compound rfl fun {fuel line previous rest} hfuel hstops => ?_
  rw [bare_call] at hfuel ⊢
  simp only [parenthesised, tokenCount_token, tokenCount_append] at hfuel
  refine reads_expressionAt_down 7 (by omega) (Nat.le_refl 7) (by omega) hstops ?_
  obtain ⟨f, hf⟩ : ∃ f, fuel - (7 - 1) = f + 3 := ⟨fuel - (7 - 1) - 3, by omega⟩
  rw [hf, List.append_assoc]
  refine reads_expressionAt_seven (isPrefix_operand_head callee) (hc.primary (by omega) ?_) ?_
  · exact fun h => by cases h
  have hitems : ∀ e ∈ args, ReadsBack plainLiteral (operand wrap) e :=
    fun e he => (hargs e he).readsBack
  exact fun line => reads_suffixes_call hitems (by omega) fun line => reads_suffixes_stop hstops

lemma readsExpr_index {object index : Expr} (ho : ReadsExpr wrap object)
    (hi : ReadsExpr wrap index) : ReadsExpr wrap (.index object index) := by
  refine .of_compound rfl fun {fuel line previous rest} hfuel hstops => ?_
  rw [bare_index] at hfuel ⊢
  simp only [tokenCount_token, tokenCount_append] at hfuel
  refine reads_expressionAt_down 7 (by omega) (Nat.le_refl 7) (by omega) hstops ?_
  obtain ⟨f, hf⟩ : ∃ f, fuel - (7 - 1) = f + 3 := ⟨fuel - (7 - 1) - 3, by omega⟩
  have hpieces : operand wrap object ++ .symbol .openBracket ::
      (operand wrap index ++ [.symbol .closeBracket]) ++ rest = operand wrap object ++
        .symbol .openBracket :: (operand wrap index ++ .symbol .closeBracket :: rest) := by simp
  rw [hf, hpieces]
  refine reads_expressionAt_seven (isPrefix_operand_head object) (ho.primary (by omega) ?_) ?_
  · exact fun h => by cases h
  exact fun line => reads_suffixes_index hi.readsBack (by omega) fun line =>
    reads_suffixes_stop hstops

lemma readsExpr_array {items : List Expr} (hitems : ∀ e ∈ items, ReadsExpr wrap e) :
    ReadsExpr wrap (.array items) := by
  refine .of_compound rfl fun {fuel line previous rest} hfuel hstops => ?_
  rw [bare_array] at hfuel ⊢
  simp only [tokenCount_token, tokenCount_append] at hfuel
  refine reads_expressionAt_down 7 (by omega) (Nat.le_refl 7) (by omega) hstops ?_
  obtain ⟨f, hf⟩ : ∃ f, fuel - (7 - 1) = f + 3 := ⟨fuel - (7 - 1) - 3, by omega⟩
  rw [hf, List.cons_append, List.append_assoc]
  refine reads_expressionAt_seven (fun t ht => by cases ht; rfl) ?_ fun line =>
    reads_suffixes_stop hstops
  exact reads_array (fun e he => (hitems e he).readsBack) (by omega)

lemma readsExpr_lambda (params : List String) {body : List Stmt}
    (hbody : ∀ s ∈ body, ReadsStmt wrap s) : ReadsExpr wrap (.lambda (.mk none params body)) := by
  refine .of_compound rfl fun {fuel line previous rest} hfuel hstops => ?_
  rw [bare_lambda] at hfuel ⊢
  simp only [tokenCount_token, tokenCount_append] at hfuel
  refine reads_expressionAt_down 7 (by omega) (Nat.le_refl 7) (by omega) hstops ?_
  obtain ⟨f, hf⟩ : ∃ f, fuel - (7 - 1) = f + 4 := ⟨fuel - (7 - 1) - 4, by omega⟩
  rw [hf, List.cons_append, List.append_assoc]
  refine reads_expressionAt_seven (fun t ht => by cases ht; rfl) ?_ fun line =>
    reads_suffixes_stop hstops
  refine .via (do
    skip
    let ps ← Script.params
    discard <| eat (.symbol .arrow)
    lambdaBody plainLiteral (f + 2) ps) rfl ?_
  refine .bind .skip fun line => .bind (reads_params params) fun line => ?_
  refine .bind (.discard (.eat_other (by simp [printBlock, braced, nextToken]))) fun line => ?_
  rw [lambdaBody]
  refine .via (do return .lambda (.mk none params (← block plainLiteral (f + 1)))) rfl ?_
  exact .bind (reads_block hbody (by omega)) fun _ => .pure

end

end

end ScriptedNotes.Script
