import ScriptedNotes.Proofs.Script.ExpressionRoundTrip
import ScriptedNotes.Proofs.Script.Lockstep

/-!
Reading undoes printing. For each form of statement there is a lemma that it is read back when its
parts are; the induction over the syntax puts these and the lemmas on expressions together.
-/

namespace ScriptedNotes.Script

open Reader

variable {wrap : Bool}

/-! ### Statements that begin with a keyword -/

lemma readsStmt_let (constant : Bool) (var : String) :
    ReadsStmt wrap (.declare constant var none) := by
  refine ⟨?_, fun {fuel previous line rest} hfuel hrest => ?_⟩
  · cases constant <;> exact ⟨_, _, rfl, rfl, rfl⟩
  obtain ⟨f, rfl⟩ : ∃ f, fuel = f + 2 := ⟨fuel - 2, by omega⟩
  refine .via (do skip; declaration plainLiteral (f + 1) constant) ?_ (.bind .skip fun line => ?_)
  · cases constant <;> rfl
  · rw [declaration]
    exact .bind .name fun _ => .bind (.eat_other (hrest.next rfl)) fun _ => .pure

lemma readsStmt_declare (constant : Bool) (var : String) {e : Expr} (he : ReadsExpr wrap e) :
    ReadsStmt wrap (.declare constant var (some e)) := by
  refine ⟨?_, fun {fuel previous line rest} hfuel hrest => ?_⟩
  · cases constant <;> exact ⟨_, _, rfl, rfl, rfl⟩
  rw [printStmt_declare] at hfuel ⊢
  simp only [tokenCount_token] at hfuel
  obtain ⟨f, rfl⟩ : ∃ f, fuel = f + 2 := ⟨fuel - 2, by omega⟩
  refine .via (do skip; declaration plainLiteral (f + 1) constant) ?_ (.bind .skip fun line => ?_)
  · cases constant <;> rfl
  · rw [declaration]
    refine .bind .name fun line => .bind .eat fun line => ?_
    exact .bind (he.operandAt (by omega) (by omega) hrest.stops) fun _ => .pure

lemma readsStmt_forRange (var : String) {start stop : Expr} {body : List Stmt}
    (hstart : ReadsExpr wrap start) (hstop : ReadsExpr wrap stop)
    (hbody : ∀ s ∈ body, ReadsStmt wrap s) : ReadsStmt wrap (.forRange var start stop body) := by
  refine ⟨⟨_, _, rfl, rfl, rfl⟩, fun {fuel previous line rest} hfuel hrest => ?_⟩
  rw [printStmt_forRange] at hfuel ⊢
  simp only [tokenCount_token, tokenCount_append] at hfuel
  obtain ⟨f, rfl⟩ : ∃ f, fuel = f + 1 := ⟨fuel - 1, by omega⟩
  simp only [List.cons_append, List.append_assoc]
  refine .via (do
    skip
    let var ← name "loop variable"
    expect (.keyword .inKw)
    let first ← expressionAt plainLiteral f 1
    if ← eat (.symbol .dotDot) then
      let stop ← expressionAt plainLiteral f 1
      return .forRange var first stop (← block plainLiteral f)
    else return .forEach var first (← block plainLiteral f)) rfl ?_
  refine .bind .skip fun line => .bind .name fun line => .bind .expect fun line => ?_
  refine .bind (hstart.operandAt (by omega) (by omega) (.token rfl)) fun line => ?_
  refine .bind .eat fun line => ?_
  refine .bind (hstop.operandAt (by omega) (by omega) (.token rfl)) fun line => ?_
  exact .bind (reads_block hbody (by omega)) fun _ => .pure

lemma readsStmt_forEach (var : String) {items : Expr} {body : List Stmt}
    (hitems : ReadsExpr wrap items) (hbody : ∀ s ∈ body, ReadsStmt wrap s) :
    ReadsStmt wrap (.forEach var items body) := by
  refine ⟨⟨_, _, rfl, rfl, rfl⟩, fun {fuel previous line rest} hfuel hrest => ?_⟩
  rw [printStmt_forEach] at hfuel ⊢
  simp only [tokenCount_token, tokenCount_append] at hfuel
  obtain ⟨f, rfl⟩ : ∃ f, fuel = f + 1 := ⟨fuel - 1, by omega⟩
  simp only [List.cons_append, List.append_assoc]
  refine .via (do
    skip
    let var ← name "loop variable"
    expect (.keyword .inKw)
    let first ← expressionAt plainLiteral f 1
    if ← eat (.symbol .dotDot) then
      let stop ← expressionAt plainLiteral f 1
      return .forRange var first stop (← block plainLiteral f)
    else return .forEach var first (← block plainLiteral f)) rfl ?_
  refine .bind .skip fun line => .bind .name fun line => .bind .expect fun line => ?_
  refine .bind (hitems.operandAt (by omega) (by omega) (.token rfl)) fun line => ?_
  refine .bind (.eat_other (by simp [printBlock, braced, nextToken])) fun line => ?_
  exact .bind (reads_block hbody (by omega)) fun _ => .pure

lemma readsStmt_while {condition : Expr} {body : List Stmt} (hc : ReadsExpr wrap condition)
    (hbody : ∀ s ∈ body, ReadsStmt wrap s) : ReadsStmt wrap (.while condition body) := by
  refine ⟨⟨_, _, rfl, rfl, rfl⟩, fun {fuel previous line rest} hfuel hrest => ?_⟩
  rw [printStmt_while] at hfuel ⊢
  simp only [tokenCount_token, tokenCount_append] at hfuel
  obtain ⟨f, rfl⟩ : ∃ f, fuel = f + 1 := ⟨fuel - 1, by omega⟩
  simp only [List.cons_append, List.append_assoc]
  refine .via (do
    skip
    let condition ← expressionAt plainLiteral f 1
    return .while condition (← block plainLiteral f)) rfl (.bind .skip fun line => ?_)
  refine .bind (hc.operandAt (by omega) (by omega) (.token rfl)) fun line => ?_
  exact .bind (reads_block hbody (by omega)) fun _ => .pure

lemma readsStmt_try {body handler : List Stmt} (hbody : ∀ s ∈ body, ReadsStmt wrap s)
    (hhandler : ∀ s ∈ handler, ReadsStmt wrap s) : ReadsStmt wrap (.try body handler) := by
  refine ⟨⟨_, _, rfl, rfl, rfl⟩, fun {fuel previous line rest} hfuel hrest => ?_⟩
  rw [printStmt_try] at hfuel ⊢
  simp only [tokenCount_token, tokenCount_append] at hfuel
  obtain ⟨f, rfl⟩ : ∃ f, fuel = f + 1 := ⟨fuel - 1, by omega⟩
  simp only [List.cons_append, List.append_assoc]
  refine .via (do
    skip
    let body ← block plainLiteral f
    expect (.keyword .catchKw)
    return .try body (← block plainLiteral f)) rfl (.bind .skip fun line => ?_)
  refine .bind (reads_block hbody (by omega)) fun line => .bind .expect fun line => ?_
  exact .bind (reads_block hhandler (by omega)) fun _ => .pure

lemma readsStmt_function (s : String) (params : List String) {body : List Stmt}
    (hbody : ∀ s ∈ body, ReadsStmt wrap s) :
    ReadsStmt wrap (.function (.mk (some s) params body)) := by
  refine ⟨⟨_, _, rfl, rfl, rfl⟩, fun {fuel previous line rest} hfuel hrest => ?_⟩
  rw [printStmt_function] at hfuel ⊢
  simp only [tokenCount_token, tokenCount_append] at hfuel
  obtain ⟨f, rfl⟩ : ∃ f, fuel = f + 1 := ⟨fuel - 1, by omega⟩
  simp only [List.cons_append, List.append_assoc]
  refine .via (do
    skip
    skip
    let ps ← Script.params
    return .function (.mk (some s) ps (← block plainLiteral f))) rfl ?_
  refine .bind .skip fun line => .bind .skip fun line => .bind (reads_params params) fun line => ?_
  exact .bind (reads_block hbody (by omega)) fun _ => .pure

/-- What follows `return`: a value on its line. -/
lemma return_value (e : Expr) (fuel line : Nat) (rest : List Piece) :
    (do
      let c ← get
      if c.onSameLine && c.head?.any Token.startsExpression then
        return .return (some (← expressionAt plainLiteral fuel 1))
      else return .return none : Reader Stmt) (.behind line (operand wrap e ++ rest)) =
    (do return .return (some (← expressionAt plainLiteral fuel 1)) : Reader Stmt)
      (.behind line (operand wrap e ++ rest)) := by
  obtain ⟨t, ps, hpieces, -, hstarts, -⟩ := operand_eq_cons wrap e
  rw [hpieces]
  show (if (Cursor.behind line (.token t :: (ps ++ rest))).onSameLine && t.startsExpression then _
    else _ : Reader Stmt) _ = _
  rw [onSameLine_token, hstarts]
  rfl

lemma readsStmt_return : ReadsStmt wrap (.return none) := by
  refine ⟨⟨_, _, rfl, rfl, rfl⟩, fun {fuel previous line rest} hfuel hrest => ?_⟩
  obtain ⟨f, rfl⟩ : ∃ f, fuel = f + 1 := ⟨fuel - 1, by omega⟩
  refine .via (skip >>= fun _ => do
    let c ← get
    if c.onSameLine && c.head?.any Token.startsExpression then
      return .return (some (← expressionAt plainLiteral f 1))
    else return .return none) rfl (.bind .skip fun line => ?_)
  refine .via (pure (.return none)) ?_ .pure
  show (if (Cursor.behind line rest).onSameLine && _ then _ else _ : Reader Stmt) _ = _
  rw [hrest.onSameLine]
  rfl

lemma readsStmt_returnValue {e : Expr} (he : ReadsExpr wrap e) :
    ReadsStmt wrap (.return (some e)) := by
  refine ⟨⟨_, _, rfl, rfl, rfl⟩, fun {fuel previous line rest} hfuel hrest => ?_⟩
  rw [printStmt_return] at hfuel ⊢
  simp only [tokenCount_token] at hfuel
  obtain ⟨f, rfl⟩ : ∃ f, fuel = f + 1 := ⟨fuel - 1, by omega⟩
  refine .via (skip >>= fun _ => do
    let c ← get
    if c.onSameLine && c.head?.any Token.startsExpression then
      return .return (some (← expressionAt plainLiteral f 1))
    else return .return none) rfl (.bind .skip fun line => ?_)
  refine .via _ (return_value e f line rest) ?_
  exact .bind (he.operandAt (by omega) (by omega) hrest.stops) fun _ => .pure

lemma readsStmt_throw {e : Expr} (he : ReadsExpr wrap e) : ReadsStmt wrap (.throw e) := by
  refine ⟨⟨_, _, rfl, rfl, rfl⟩, fun {fuel previous line rest} hfuel hrest => ?_⟩
  rw [printStmt_throw] at hfuel ⊢
  simp only [tokenCount_token] at hfuel
  obtain ⟨f, rfl⟩ : ∃ f, fuel = f + 1 := ⟨fuel - 1, by omega⟩
  refine .via (do skip; return .throw (← expressionAt plainLiteral f 1)) rfl ?_
  refine .bind .skip fun line => ?_
  exact .bind (he.operandAt (by omega) (by omega) hrest.stops) fun _ => .pure

lemma readsStmt_break : ReadsStmt wrap .break := by
  refine ⟨⟨_, _, rfl, rfl, rfl⟩, fun {fuel previous line rest} hfuel hrest => ?_⟩
  obtain ⟨f, rfl⟩ : ∃ f, fuel = f + 1 := ⟨fuel - 1, by omega⟩
  exact .via (do skip; return .break) rfl (.bind .skip fun _ => .pure)

lemma readsStmt_continue : ReadsStmt wrap .continue := by
  refine ⟨⟨_, _, rfl, rfl, rfl⟩, fun {fuel previous line rest} hfuel hrest => ?_⟩
  obtain ⟨f, rfl⟩ : ∃ f, fuel = f + 1 := ⟨fuel - 1, by omega⟩
  exact .via (do skip; return .continue) rfl (.bind .skip fun _ => .pure)

/-! ### Conditions -/

/-- A branch is read back: its condition and its statements are. -/
def ReadsBranch (wrap : Bool) : Branch → Prop
  | .mk condition body => ReadsExpr wrap condition ∧ ∀ s ∈ body, ReadsStmt wrap s

/-- The branches behind the first are read back. -/
lemma reads_moreBranches {branches : List Branch} {otherwise : Option (List Stmt)}
    (hbranches : ∀ b ∈ branches, ReadsBranch wrap b)
    (hotherwise : ∀ body ∈ otherwise, ∀ s ∈ body, ReadsStmt wrap s)
    {fuel line : Nat} {rest : List Piece} (hrest : FreshLine rest)
    (hfuel : 16 * (tokenCount (printBranches wrap branches) +
      tokenCount (printOtherwise wrap otherwise)) < fuel) :
    Reads (moreBranches plainLiteral fuel)
      (.behind line (printBranches wrap branches ++ (printOtherwise wrap otherwise ++ rest)))
      (branches, otherwise) rest := by
  induction branches generalizing fuel line with
  | nil =>
    obtain ⟨f, rfl⟩ : ∃ f, fuel = f + 1 := ⟨fuel - 1, by omega⟩
    cases otherwise with
    | none =>
      have hhead := facing_head? (some line) line rest
      refine .via (pure ([], none)) (moreBranches_of_other ?_ ?_) .pure
      · rw [printBranches, printOtherwise, List.nil_append, List.nil_append, hhead]
        exact hrest.next rfl
      · rw [printBranches, printOtherwise, List.nil_append, List.nil_append, hhead]
        exact hrest.next rfl
    | some body =>
      rw [printOtherwise_some] at hfuel ⊢
      simp only [tokenCount_token] at hfuel
      refine .via (do skip; return ([], some (← block plainLiteral f))) rfl ?_
      refine .bind .skip fun line => ?_
      exact .bind (reads_block (hotherwise body rfl) (by omega)) fun _ => .pure
  | cons branch branches ih =>
    obtain ⟨condition, body⟩ := branch
    obtain ⟨⟨hc, hbody⟩, hbranches⟩ := List.forall_mem_cons.1 hbranches
    obtain ⟨f, rfl⟩ : ∃ f, fuel = f + 1 := ⟨fuel - 1, by omega⟩
    rw [printBranches_cons] at hfuel ⊢
    simp only [tokenCount_token, tokenCount_append] at hfuel
    simp only [List.cons_append, List.append_assoc]
    refine .via (do
      skip
      let condition ← expressionAt plainLiteral f 1
      let body ← block plainLiteral f
      let found ← moreBranches plainLiteral f
      return (.mk condition body :: found.1, found.2)) rfl (.bind .skip fun line => ?_)
    refine .bind (hc.operandAt (by omega) (by omega) (.token rfl)) fun line => ?_
    refine .bind (reads_block hbody (by omega)) fun line => ?_
    exact .bind (ih hbranches (by omega)) fun _ => .pure

lemma readsStmt_cond {condition : Expr} {body : List Stmt} {branches : List Branch}
    {otherwise : Option (List Stmt)} (hc : ReadsExpr wrap condition)
    (hbody : ∀ s ∈ body, ReadsStmt wrap s) (hbranches : ∀ b ∈ branches, ReadsBranch wrap b)
    (hotherwise : ∀ body ∈ otherwise, ∀ s ∈ body, ReadsStmt wrap s) :
    ReadsStmt wrap (.cond (.mk condition body :: branches) otherwise) := by
  refine ⟨⟨_, _, rfl, rfl, rfl⟩, fun {fuel previous line rest} hfuel hrest => ?_⟩
  rw [printStmt_cond] at hfuel ⊢
  simp only [tokenCount_token, tokenCount_append] at hfuel
  obtain ⟨f, rfl⟩ : ∃ f, fuel = f + 1 := ⟨fuel - 1, by omega⟩
  simp only [List.cons_append, List.append_assoc]
  refine .via (do
    skip
    let condition ← expressionAt plainLiteral f 1
    let body ← block plainLiteral f
    let found ← moreBranches plainLiteral f
    return .cond (.mk condition body :: found.1) found.2) rfl (.bind .skip fun line => ?_)
  refine .bind (hc.operandAt (by omega) (by omega) (.token rfl)) fun line => ?_
  refine .bind (reads_block hbody (by omega)) fun line => ?_
  exact .bind (reads_moreBranches hbranches hotherwise hrest (by omega)) fun _ => .pure

/-! ### Expressions and assignments -/

lemma readsStmt_expr {e : Expr} (he : ReadsExpr wrap e) : ReadsStmt wrap (.expr e) := by
  refine ⟨⟨_, _, rfl, rfl, rfl⟩, fun {fuel previous line rest} hfuel hrest => ?_⟩
  rw [printStmt] at hfuel ⊢
  simp only [parenthesised, tokenCount_token, tokenCount_append] at hfuel
  obtain ⟨f, rfl⟩ : ∃ f, fuel = f + 2 := ⟨fuel - 2, by omega⟩
  refine .via _ (statement_of_expression (t := .symbol .openParen) rfl rfl (by simp)) ?_
  rw [expressionStatement]
  refine .via (do
    let e ← expressionAt plainLiteral f 1
    if ← eat (.symbol .assign) then
      if e.isTarget then return .assign e (← expressionAt plainLiteral f 1)
      else fail (.invalidTarget _)
    else return .expr e) rfl ?_
  refine .bind (he.grouped (by omega) hrest.stops) fun line => ?_
  exact .bind (.eat_other (hrest.next rfl)) fun _ => .pure

/-- The left side of an assignment is read back. -/
lemma reads_target {target : Expr} (h : ReadsExpr wrap target) {fuel line : Nat}
    {previous : Option Nat} {rest : List Piece}
    (hfuel : 16 * tokenCount (printTarget wrap target) + 8 ≤ fuel) (hstops : Stops 1 rest) :
    Reads (expressionAt plainLiteral fuel 1)
      (.facing previous line (printTarget wrap target ++ rest)) target rest := by
  unfold printTarget operandOf at hfuel ⊢
  split at hfuel
  · next hbare =>
    rw [if_pos hbare]
    exact h.bare hfuel hstops
  · next hbare =>
    rw [if_neg hbare]
    simp only [parenthesised, tokenCount_token, tokenCount_append] at hfuel
    exact h.grouped (by omega) hstops

/-- An operand that a symbol follows: when it begins with a name, the symbol is next. -/
lemma operand_symbol_eq_cons (wrap : Bool) (e : Expr) (y : Symbol) (qs : List Piece) :
    ∃ t ps, operand wrap e ++ .symbol y :: qs = .token t :: ps ∧
      t.beginsExpression = true ∧ ∀ s, t = .name s → ps = .symbol y :: qs := by
  cases e with
  | ident s => exact ⟨_, _, rfl, rfl, fun _ _ => rfl⟩
  | bool b => cases b <;> exact ⟨_, _, rfl, rfl, by simp⟩
  | number x => exact ⟨_, _, rfl, rfl, by simp⟩
  | str s => exact ⟨_, _, rfl, rfl, by simp [literalOf]⟩
  | nil => exact ⟨_, _, rfl, rfl, by simp⟩
  | _ => exact ⟨_, _, rfl, rfl, by simp⟩

/-- What the left side of an assignment begins with. A name that comes first is followed by the
equals sign, a point or a bracket. -/
lemma printTarget_eq_cons (wrap : Bool) {target : Expr} (h : target.isTarget = true)
    (qs : List Piece) :
    ∃ t ps, printTarget wrap target ++ .symbol .assign :: qs = .token t :: ps ∧
      t.beginsExpression = true ∧ ∀ s, t = .name s → ∃ y ps', ps = .symbol y :: ps' ∧
        (y = .assign ∨ y = .dot ∨ y = .openBracket) := by
  have hgroup : ∀ ps, ∃ t ps', parenthesised ps ++ .symbol .assign :: qs = .token t :: ps' ∧
      t.beginsExpression = true ∧ ∀ s, t = .name s → ∃ y ps'', ps' = .symbol y :: ps'' ∧
        (y = .assign ∨ y = .dot ∨ y = .openBracket) := fun ps => ⟨_, _, rfl, rfl, by simp⟩
  cases target with
  | ident s =>
    refine ⟨.name s, .symbol .assign :: qs, ?_, rfl, fun _ _ => ⟨_, _, rfl, .inl rfl⟩⟩
    unfold printTarget operandOf
    rw [Expr.isAtom, Bool.or_true, if_pos rfl]
    rfl
  | member object property =>
    cases wrap with
    | true => exact hgroup _
    | false =>
      obtain ⟨t, ps, hpieces, ht, hname⟩ := operand_symbol_eq_cons false object .dot
        (.name property :: .symbol .assign :: qs)
      refine ⟨t, ps, ?_, ht, fun s hs => ⟨_, _, hname s hs, .inr (.inl rfl)⟩⟩
      rw [← hpieces]
      show (operand false object ++ [.symbol .dot, .name property]) ++ _ = _
      rw [List.append_assoc]
      rfl
  | index object index =>
    cases wrap with
    | true => exact hgroup _
    | false =>
      obtain ⟨t, ps, hpieces, ht, hname⟩ := operand_symbol_eq_cons false object
        .openBracket (operand false index ++ [.symbol .closeBracket] ++ .symbol .assign :: qs)
      refine ⟨t, ps, ?_, ht, fun s hs => ⟨_, _, hname s hs, .inr (.inr rfl)⟩⟩
      rw [← hpieces]
      show (operand false object ++ .symbol .openBracket :: (operand false index ++
        [.symbol .closeBracket])) ++ _ = _
      rw [List.append_assoc]
      rfl
  | _ => cases h

/-- A statement that begins with the left side of an assignment is no command. -/
lemma statement_of_target (wrap : Bool) {target : Expr} (h : target.isTarget = true)
    (qs : List Piece) (fuel line : Nat) (previous : Option Nat) :
    ∃ f, fuel ≤ f ∧ statement plainLiteral (fuel + 2)
        (.facing previous line (printTarget wrap target ++ .symbol .assign :: qs)) =
      expressionStatement plainLiteral f
        (.facing previous line (printTarget wrap target ++ .symbol .assign :: qs)) := by
  obtain ⟨t, ps, hpieces, ht, hname⟩ := printTarget_eq_cons wrap h qs
  rw [hpieces]
  by_cases hword : ∃ s, t = .name s ∧ isCommandWord s = true
  · obtain ⟨s, rfl, hword⟩ := hword
    obtain ⟨y, ps', rfl, hy⟩ := hname s rfl
    refine ⟨fuel, Nat.le_refl _, statement_of_word rfl hword ?_ ?_⟩
    · show (!(Cursor.behind line (.symbol y :: ps')).onSameLine || _ || _) = false
      rw [onSameLine_token]
      rcases hy with rfl | rfl | rfl <;> rfl
    · rcases hy with rfl | rfl | rfl <;> rfl
  · refine ⟨fuel + 1, Nat.le_succ _, statement_of_expression rfl ht fun s hs => ?_⟩
    by_contra hs'
    exact hword ⟨s, hs, by simpa using hs'⟩

lemma readsStmt_assign {target value : Expr} (htarget : target.isTarget = true)
    (ht : ReadsExpr wrap target) (hv : ReadsExpr wrap value) :
    ReadsStmt wrap (.assign target value) := by
  refine ⟨?_, fun {fuel previous line rest} hfuel hrest => ?_⟩
  · obtain ⟨t, ps, hpieces, hbegins, -⟩ := printTarget_eq_cons wrap htarget (operand wrap value)
    exact ⟨t, ps, hpieces, beginsLine_of_beginsExpression hbegins⟩
  rw [printStmt_assign] at hfuel ⊢
  simp only [tokenCount_token, tokenCount_append] at hfuel
  obtain ⟨f, rfl⟩ : ∃ f, fuel = f + 3 := ⟨fuel - 3, by omega⟩
  rw [List.append_assoc, List.cons_append]
  obtain ⟨g, hg, heq⟩ := statement_of_target wrap htarget (operand wrap value ++ rest)
    (f + 1) line previous
  obtain ⟨g, rfl⟩ : ∃ k, g = k + 1 := ⟨g - 1, by omega⟩
  refine .via _ heq ?_
  rw [expressionStatement]
  refine .via (do
    let e ← expressionAt plainLiteral g 1
    if ← eat (.symbol .assign) then
      if e.isTarget then return .assign e (← expressionAt plainLiteral g 1)
      else fail (.invalidTarget _)
    else return .expr e) rfl ?_
  refine .bind (reads_target ht (by omega) (.token rfl)) fun line => .bind .eat fun line => ?_
  rw [if_pos rfl, if_pos htarget]
  exact .bind (hv.operandAt (by omega) (by omega) hrest.stops) fun _ => .pure

/-! ### The induction over the syntax -/

section

variable (wrap)

mutual

theorem readsExpr : ∀ e : Expr, e.printable = true → ReadsExpr wrap e
  | .number x, _ => readsExpr_number x
  | .str s, _ => readsExpr_str s
  | .bool b, _ => readsExpr_bool b
  | .nil, _ => readsExpr_nil
  | .ident s, _ => readsExpr_ident s
  | .template _, h => by cases h
  | .array items, h => readsExpr_array (readsExprs items h)
  | .unary op e, h => readsExpr_unary op (readsExpr e h)
  | .binary op l r, h => by
    obtain ⟨hl, hr⟩ := Bool.and_eq_true_iff.1 h
    exact readsExpr_binary op (readsExpr l hl) (readsExpr r hr)
  | .call callee args, h => by
    obtain ⟨hc, hargs⟩ := Bool.and_eq_true_iff.1 h
    exact readsExpr_call (readsExpr callee hc) (readsExprs args hargs)
  | .member object property, h => readsExpr_member property (readsExpr object h)
  | .index object index, h => by
    obtain ⟨ho, hi⟩ := Bool.and_eq_true_iff.1 h
    exact readsExpr_index (readsExpr object ho) (readsExpr index hi)
  | .lambda (.mk none params body), h => readsExpr_lambda params (readsStmts body h)
  | .lambda (.mk (some _) _ _), h => by cases h

theorem readsExprs : ∀ es : List Expr, printableExprs es = true → ∀ e ∈ es, ReadsExpr wrap e
  | [], _ => fun _ he => by cases he
  | e :: es, h => by
    obtain ⟨he, hes⟩ := Bool.and_eq_true_iff.1 h
    exact List.forall_mem_cons.2 ⟨readsExpr e he, readsExprs es hes⟩

theorem readsStmt : ∀ s : Stmt, s.printable = true → ReadsStmt wrap s
  | .declare constant var none, _ => readsStmt_let constant var
  | .declare constant var (some e), h => readsStmt_declare constant var (readsExpr e h)
  | .assign target value, h => by
    obtain ⟨h, hv⟩ := Bool.and_eq_true_iff.1 h
    obtain ⟨htarget, ht⟩ := Bool.and_eq_true_iff.1 h
    exact readsStmt_assign htarget (readsExpr target ht) (readsExpr value hv)
  | .expr e, h => readsStmt_expr (readsExpr e h)
  | .cond [] none, h => by cases h
  | .cond [] (some _), h => by cases h
  | .cond (.mk condition body :: branches) none, h => by
    simp only [Stmt.printable, printableBranches, List.isEmpty_cons, Bool.not_false,
      Bool.true_and, Bool.and_eq_true] at h
    obtain ⟨⟨hc, hbody⟩, hbranches⟩ := h
    exact readsStmt_cond (readsExpr condition hc) (readsStmts body hbody)
      (readsBranches branches hbranches) (fun _ hb => by cases hb)
  | .cond (.mk condition body :: branches) (some last), h => by
    simp only [Stmt.printable, printableBranches, List.isEmpty_cons, Bool.not_false,
      Bool.true_and, Bool.and_eq_true] at h
    obtain ⟨⟨⟨hc, hbody⟩, hbranches⟩, hlast⟩ := h
    exact readsStmt_cond (readsExpr condition hc) (readsStmts body hbody)
      (readsBranches branches hbranches) (fun _ hb => by cases hb; exact readsStmts last hlast)
  | .forRange var start stop body, h => by
    obtain ⟨h, hbody⟩ := Bool.and_eq_true_iff.1 h
    obtain ⟨hstart, hstop⟩ := Bool.and_eq_true_iff.1 h
    exact readsStmt_forRange var (readsExpr start hstart) (readsExpr stop hstop)
      (readsStmts body hbody)
  | .forEach var items body, h => by
    obtain ⟨hitems, hbody⟩ := Bool.and_eq_true_iff.1 h
    exact readsStmt_forEach var (readsExpr items hitems) (readsStmts body hbody)
  | .while condition body, h => by
    obtain ⟨hc, hbody⟩ := Bool.and_eq_true_iff.1 h
    exact readsStmt_while (readsExpr condition hc) (readsStmts body hbody)
  | .try body handler, h => by
    obtain ⟨hbody, hhandler⟩ := Bool.and_eq_true_iff.1 h
    exact readsStmt_try (readsStmts body hbody) (readsStmts handler hhandler)
  | .function (.mk (some s) params body), h => readsStmt_function s params (readsStmts body h)
  | .function (.mk none _ _), h => by cases h
  | .return none, _ => readsStmt_return
  | .return (some e), h => readsStmt_returnValue (readsExpr e h)
  | .throw e, h => readsStmt_throw (readsExpr e h)
  | .break, _ => readsStmt_break
  | .continue, _ => readsStmt_continue

theorem readsStmts : ∀ ss : List Stmt, printableStmts ss = true → ∀ s ∈ ss, ReadsStmt wrap s
  | [], _ => fun _ hs => by cases hs
  | s :: ss, h => by
    obtain ⟨hs, hss⟩ := Bool.and_eq_true_iff.1 h
    exact List.forall_mem_cons.2 ⟨readsStmt s hs, readsStmts ss hss⟩

theorem readsBranches : ∀ bs : List Branch, printableBranches bs = true →
    ∀ b ∈ bs, ReadsBranch wrap b
  | [], _ => fun _ hb => by cases hb
  | .mk condition body :: bs, h => by
    obtain ⟨h, hbs⟩ := Bool.and_eq_true_iff.1 h
    obtain ⟨hc, hbody⟩ := Bool.and_eq_true_iff.1 h
    exact List.forall_mem_cons.2
      ⟨⟨readsExpr condition hc, readsStmts body hbody⟩, readsBranches bs hbs⟩

end

end

/-! ### Programs -/

lemma reads_programRest {depth : Nat} {program : Program}
    (hprogram : ∀ s ∈ program, ReadsStmt wrap s) {fuel line : Nat} {previous : Option Nat}
    (hdepth : 16 * tokenCount (printStmts wrap program) + 4 ≤ depth)
    (hfuel : tokenCount (printStmts wrap program) < fuel) :
    ∃ c : Cursor, c.rest = [] ∧ programRest plainLiteral depth fuel
      (.facing previous line (printStmts wrap program)) = .ok (program, c) := by
  induction program generalizing fuel line previous with
  | nil =>
    obtain ⟨f, rfl⟩ : ∃ f, fuel = f + 1 := ⟨fuel - 1, by omega⟩
    exact ⟨_, rfl, rfl⟩
  | cons s program ih =>
    obtain ⟨hs, hprogram⟩ := List.forall_mem_cons.1 hprogram
    obtain ⟨t, ps, hpieces, hbegins, hcloses⟩ := hs.begins
    have hpos : 0 < tokenCount (printStmt wrap s) := by
      rw [hpieces]
      exact Nat.succ_pos _
    rw [printStmts, tokenCount_lineBreak, tokenCount_append] at hdepth hfuel
    obtain ⟨f, rfl⟩ : ∃ f, fuel = f + 1 := ⟨fuel - 1, by omega⟩
    have hfresh : FreshLine (printStmts wrap program ++ []) := freshLine_stmts hprogram .nil
    rw [List.append_nil] at hfresh
    have hread : Reads (statement plainLiteral depth)
        (.facing previous (line + 1) (printStmt wrap s ++ printStmts wrap program))
        s (printStmts wrap program) := hs.statement (by omega) hfresh
    obtain ⟨line', hread⟩ := hread
    have hhead : (Cursor.facing previous (line + 1)
        (printStmt wrap s ++ printStmts wrap program)).head? = some t := by
      rw [facing_head?, hpieces]
      rfl
    obtain ⟨c, hc, hrest⟩ : ∃ c : Cursor, c.rest = [] ∧ programRest plainLiteral depth f
        (.behind line' (printStmts wrap program)) = .ok (program, c) :=
      ih hprogram (by omega) (by omega)
    refine ⟨c, hc, ?_⟩
    rw [printStmts, facing_lineBreak, programRest_of_statement hhead hbegins hcloses,
      bind_apply hread, bind_apply hrest]
    rfl

/-- **Reading undoes printing.** Whatever bytes the printed tokens cover, they are read as the
program that was printed, and all of them are taken. -/
theorem programOf_printed (wrap : Bool) (program : Program) (h : printableStmts program = true)
    (line : Nat) (tokens : List Located)
    (htokens : tokens.map Located.mark = printed line (printStmts wrap program)) :
    programOf (literalReader false) tokens = .ok program ∧
      ∃ c : Cursor, c.rest = [] ∧ programRest (literalReader false) (enoughFor tokens)
        (tokens.length + 1) (.ofTokens tokens) = .ok (program, c) := by
  have hforall := forall₂_mark ((map_mark_placed line _).trans htokens.symm)
  have hlength : tokens.length = tokenCount (printStmts wrap program) := by
    rw [← hforall.length_eq, length_placed]
  have hread : ∃ c : Cursor, c.rest = [] ∧ programRest (literalReader false) (enoughFor tokens)
      (tokens.length + 1) (.ofTokens tokens) = .ok (program, c) := by
    obtain ⟨c, hc, hread⟩ : ∃ c : Cursor, c.rest = [] ∧ programRest plainLiteral
        (enoughFor tokens) (tokens.length + 1)
        (.ofTokens (placed line (printStmts wrap program))) = .ok (program, c) := by
      refine reads_programRest (readsStmts wrap program h) ?_ ?_
      · rw [enoughFor, hlength]
        omega
      · rw [hlength]
        exact Nat.lt_succ_self _
    have hlockstep := lockstep_programRest (faithful_mark plainLiteral) (enoughFor tokens)
      (tokens.length + 1)
    have halike : Cursor.Alike (fun t u => t.mark = u.mark)
      (.ofTokens (placed line (printStmts wrap program))) (.ofTokens tokens) := ⟨rfl, hforall⟩
    obtain ⟨d, hd, hcd⟩ := hlockstep.of_ok halike hread
    refine ⟨d, ?_, hd⟩
    have hrest := hcd.rest
    rw [hc] at hrest
    exact List.forall₂_nil_left_iff.1 hrest
  refine ⟨?_, hread⟩
  obtain ⟨c, -, hread⟩ := hread
  show (·.1) <$> programRest (literalReader false) (enoughFor tokens) (tokens.length + 1)
    (.ofTokens tokens) = _
  rw [hread]
  rfl

/-- A program with every form of statement, in which command words are variables. -/
def everyStatement : Program :=
  [.declare false "print" none,
    .declare true "error" (some (.str "a \"quote\"\n")),
    .assign (.ident "print") (.array [.bool true, .nil]),
    .assign (.index (.ident "print") (.ident "clear")) (.unary .neg (.ident "x")),
    .assign (.member (.call (.ident "sleep") []) "name") (.ident "y"),
    .expr (.ident "success"),
    .cond [.mk (.binary .lt (.ident "x") (.binary .add (.ident "y") (.ident "z"))) [.break],
      .mk (.bool false) []] (some [.continue]),
    .forRange "i" (.ident "a") (.ident "b") [.while (.unary .not (.ident "c")) [.throw .nil]],
    .forEach "j" (.array []) [],
    .try [.return none] [.return (some (.ident "e"))],
    .function (.mk (some "f") ["p", "q"]
      [.expr (.call (.lambda (.mk none ["r"] [.expr (.ident "r")])) [.ident "p", .ident "q"])])]

theorem programOf_printed_everyStatement :
    printableStmts everyStatement = true ∧
      programOf (literalReader false) (placed 1 (printStmts false everyStatement)) =
        .ok everyStatement :=
  ⟨rfl, (programOf_printed false everyStatement rfl 1 _ (map_mark_placed 1 _)).1⟩

end ScriptedNotes.Script
