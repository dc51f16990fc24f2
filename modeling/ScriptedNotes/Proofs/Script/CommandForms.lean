import ScriptedNotes.Proofs.Script.ReadingAhead

/-!
The two forms of a command. A command word takes its arguments bare on its line or, as a call, in
parentheses; readers of their own take the two. Whatever expressions the arguments are, both forms
are read as the same call, and leave the same tokens to what reads on (`commandForms_agree`).
-/

namespace ScriptedNotes.Script

open Reader

/-! ### Forms -/

/-- Tokens on a line, as if each covered no bytes. -/
def onLine (line : Nat) (ts : List Token) : List Located :=
  ts.map (⟨·, 0, 0, line⟩)

/-- Located tokens that are given ones, all on one line. -/
def Spells (line : Nat) (ts : List Token) (tokens : List Located) : Prop :=
  tokens.map Located.mark = ts.map (·, line)

/-- A command word with its arguments bare behind it. -/
def commandForm (word : String) (args : List (List Token)) : List Token :=
  .name word :: [.symbol .comma].intercalate args

/-- A command word with its arguments in parentheses. -/
def callForm (word : String) (args : List (List Token)) : List Token :=
  .name word :: .symbol .openParen :: ([.symbol .comma].intercalate args ++ [.symbol .closeParen])

/-- Arguments that a command word takes bare on its line: expressions, the first of which begins
neither with a parenthesis nor with a bracket. -/
structure BareArguments (literal : LiteralReader) (line : Nat) (args : List (List Token))
    (values : List Expr) : Prop where
  nonempty : args ≠ []
  accepted : List.Forall₂ (fun ts e => expressionOf literal (onLine line ts) = .ok e) args values
  paren : ∀ ts ∈ args.head?, ts.head? ≠ some (.symbol .openParen)
  bracket : ∀ ts ∈ args.head?, ts.head? ≠ some (.symbol .openBracket)

/-- Whether a token may stand behind a command: a semicolon, what closes a block, or a keyword or
name that begins the next statement. -/
def Token.followsCommand : Token → Bool
  | .keyword _ | .name _ => true
  | .symbol s => s = .semicolon || s = .closeBrace
  | _ => false

/-- What stands behind a command: nothing, or tokens the first of which may. -/
def FollowCommand (tail : List Located) : Prop :=
  ∀ t ∈ tail.head?, t.token.followsCommand = true

lemma FollowCommand.nil : FollowCommand [] := by
  intro t ht
  cases ht

lemma FollowCommand.ends {tail : List Located} (h : FollowCommand tail) : EndExpression tail := by
  intro t ht
  have h := h t ht
  cases ht : t.token with
  | keyword | name => rfl
  | symbol s =>
    rw [ht] at h
    cases s <;> first | rfl | cases h
  | number | string =>
    rw [ht] at h
    cases h

lemma FollowCommand.head?_ne {tail : List Located} (h : FollowCommand tail) {p : Option Nat}
    {t : Token} (ht : t.followsCommand = false) : (Cursor.mk p tail).head? ≠ some t := by
  intro hhead
  obtain ⟨u, hu, rfl⟩ := Option.map_eq_some_iff.1 hhead
  exact Bool.noConfusion (ht.symm.trans (h u hu))

/-! ### Accepted expressions -/

section

variable {literal : LiteralReader} {fuel level : Nat} {tokens tail : List Located} {e : Expr}
  {c d : Cursor}

lemma startsExpression_of_primary (h : primary literal fuel c = .ok (e, d)) :
    ∃ t, c.head? = some t ∧ t.startsExpression = true := by
  cases fuel with
  | zero => cases h
  | succ fuel =>
    rw [primary, get_bind_apply] at h
    cases hc : c.head? with
    | none =>
      rw [hc] at h
      cases h
    | some t =>
      rw [hc] at h
      refine ⟨t, rfl, ?_⟩
      cases t with
      | keyword k => cases k <;> first | rfl | cases h
      | symbol s => cases s <;> first | rfl | cases h
      | _ => rfl

lemma startsExpression_of_isPrefix {t : Token} (h : t.isPrefix = true) :
    t.startsExpression = true := by
  cases t with
  | keyword k => cases k <;> first | rfl | cases h
  | symbol s => cases s <;> first | rfl | cases h
  | _ => rfl

/-- Past the operators, a head that no operator stands before is read with its suffixes. -/
lemma expressionAt_head (hlevel : ¬level ≤ 6)
    (hunary : ∀ t, c.head? = some t → t.isPrefix = false) :
    expressionAt literal (fuel + 1) level c = (do
      let head ← primary literal fuel
      suffixes literal fuel head : Reader Expr) c := by
  rw [expressionAt, if_neg hlevel, get_bind_apply]
  generalize c.head? = next at hunary
  split
  · cases hunary _ rfl
  · cases hunary _ rfl
  · cases hunary _ rfl
  · rfl

lemma startsExpression_of_expressionAt (h : expressionAt literal fuel level c = .ok (e, d)) :
    ∃ t, c.head? = some t ∧ t.startsExpression = true := by
  induction fuel generalizing level e d with
  | zero => cases h
  | succ fuel ih =>
    by_cases hlevel : level ≤ 6
    · rw [expressionAt, if_pos hlevel] at h
      obtain ⟨left, c', hleft, -⟩ := exists_of_bind h
      exact ih hleft
    · by_cases hunary : ∀ t, c.head? = some t → t.isPrefix = false
      · rw [expressionAt_head hlevel hunary] at h
        obtain ⟨head, c', hhead, -⟩ := exists_of_bind h
        exact startsExpression_of_primary hhead
      · push Not at hunary
        obtain ⟨t, ht, hunary⟩ := hunary
        exact ⟨t, ht, startsExpression_of_isPrefix (by simpa using hunary)⟩

lemma exists_of_expressionOf (h : expressionOf literal tokens = .ok e) :
    ∃ p, expressionAt literal (enoughFor tokens) 1 ⟨none, tokens⟩ = .ok (e, ⟨p, []⟩) := by
  obtain ⟨d, h⟩ := exists_of_run' h
  obtain ⟨e', ⟨p, rest⟩, hread, h⟩ := exists_of_bind h
  obtain ⟨_, d', hend, h⟩ := exists_of_bind h
  obtain ⟨⟩ := h
  cases rest with
  | nil => exact ⟨p, hread⟩
  | cons t rest => cases hend

/-- An accepted expression begins with a token that one may begin with. -/
lemma exists_of_accepted (h : expressionOf literal tokens = .ok e) :
    ∃ t rest, tokens = t :: rest ∧ t.token.startsExpression = true := by
  obtain ⟨p, h⟩ := exists_of_expressionOf h
  obtain ⟨t, hhead, ht⟩ := startsExpression_of_expressionAt h
  cases tokens with
  | nil => cases hhead
  | cons u rest =>
    obtain ⟨⟩ := hhead
    exact ⟨u, rest, rfl, ht⟩

/-- An accepted expression is read with more fuel, behind another token and before any that ends
it. -/
lemma expressionAt_accepted (h : expressionOf literal tokens = .ok e)
    (hfuel : enoughFor tokens ≤ fuel) (htail : EndExpression tail) (p : Option Nat) :
    ∃ q, expressionAt literal fuel 1 ⟨p, tokens ++ tail⟩ = .ok (e, ⟨q, tail⟩) := by
  obtain ⟨q, hread⟩ := exists_of_expressionOf h
  obtain ⟨-, -, hmore⟩ := (grammarExtends literal tail hfuel).expressionAt 1 _ _ _ hread
  obtain ⟨t, rest, rfl, -⟩ := exists_of_accepted h
  refine ⟨q, ?_⟩
  rw [List.cons_append, Fresh.expressionAt fuel 1 p none]
  exact hmore (.inr htail)

end

/-! ### Arguments -/

/-- Expressions with commas between them, as located tokens. -/
inductive Arguments (literal : LiteralReader) : List Located → List Expr → Prop
  | last {tokens : List Located} {e : Expr} (h : expressionOf literal tokens = .ok e) :
    Arguments literal tokens [e]
  | more {tokens rest : List Located} {comma : Located} {e : Expr} {es : List Expr}
    (h : expressionOf literal tokens = .ok e) (hcomma : comma.token = .symbol .comma)
    (hrest : Arguments literal rest es) :
    Arguments literal (tokens ++ comma :: rest) (e :: es)

/-- What is enough for a list with a comma in it is enough, after a step, for its parts. -/
lemma enoughFor_parts {tokens rest : List Located} {comma : Located} {fuel : Nat}
    (h : enoughFor (tokens ++ comma :: rest) < fuel + 1) :
    enoughFor tokens ≤ fuel ∧ enoughFor rest < fuel := by
  simp only [enoughFor, List.length_append, List.length_cons] at h ⊢
  omega

namespace Arguments

variable {literal : LiteralReader} {tokens tail : List Located} {es : List Expr} {fuel : Nat}
  (h : Arguments literal tokens es)
include h

lemma exists_cons : ∃ t rest, tokens = t :: rest ∧ t.token.startsExpression = true := by
  cases h with
  | last h => exact exists_of_accepted h
  | more h _ _ =>
    obtain ⟨t, rest, rfl, ht⟩ := exists_of_accepted h
    exact ⟨t, _, rfl, ht⟩

/-- Bare arguments end before what may stand behind a command. -/
lemma commandArguments (htail : FollowCommand tail) (hfuel : enoughFor tokens < fuel)
    (p : Option Nat) :
    ∃ q, commandArguments literal fuel ⟨p, tokens ++ tail⟩ = .ok (es, ⟨q, tail⟩) := by
  induction h generalizing fuel p with
  | last h =>
    obtain ⟨fuel, rfl⟩ : ∃ k, fuel = k + 1 := ⟨fuel - 1, by omega⟩
    obtain ⟨q, hread⟩ := expressionAt_accepted h (Nat.le_of_lt_succ hfuel) htail.ends p
    refine ⟨q, ?_⟩
    rw [Script.commandArguments, bind_apply hread, eat_bind_of_ne (htail.head?_ne rfl)]
    rfl
  | @more tokens rest comma e es h hcomma hrest ih =>
    obtain ⟨fuel, rfl⟩ : ∃ k, fuel = k + 1 := ⟨fuel - 1, by omega⟩
    obtain ⟨hfirst, hothers⟩ := enoughFor_parts hfuel
    obtain ⟨q, hread⟩ := expressionAt_accepted h hfirst (.of_token hcomma rfl) p
    obtain ⟨q', hread'⟩ := ih hothers (some comma.line)
    refine ⟨q', ?_⟩
    rw [List.append_assoc, List.cons_append, Script.commandArguments, bind_apply hread,
      eat_bind_of_eq hcomma]
    exact bind_apply hread'

/-- Arguments of a call end with their parenthesis. -/
lemma callArguments {close : Located} (hclose : close.token = .symbol .closeParen)
    (hfuel : enoughFor tokens < fuel) (p : Option Nat) :
    callArguments literal fuel ⟨p, tokens ++ close :: tail⟩ =
      .ok (es, ⟨some close.line, tail⟩) := by
  induction h generalizing fuel p with
  | last h =>
    obtain ⟨fuel, rfl⟩ : ∃ k, fuel = k + 1 := ⟨fuel - 1, by omega⟩
    obtain ⟨q, hread⟩ := expressionAt_accepted h (Nat.le_of_lt_succ hfuel) (.of_token hclose rfl) p
    rw [Script.callArguments, bind_apply hread, eat_bind_of_eq hclose]
    rfl
  | @more tokens rest comma e es h hcomma hrest ih =>
    obtain ⟨fuel, rfl⟩ : ∃ k, fuel = k + 1 := ⟨fuel - 1, by omega⟩
    obtain ⟨hfirst, hothers⟩ := enoughFor_parts hfuel
    obtain ⟨q, hread⟩ := expressionAt_accepted h hfirst (.of_token hcomma rfl) p
    rw [List.append_assoc, List.cons_append, Script.callArguments, bind_apply hread,
      eat_bind_of_ne]
    · exact (bind_apply (expect_apply hcomma)).trans (bind_apply (ih hothers _))
    · intro h
      cases hcomma.symm.trans (Option.some.inj h)

end Arguments

/-! ### Statements -/

section

variable {t : Located} {line : Nat} {rest : List Located} (ht : t.token.startsExpression = true)
include ht

lemma endsCommand_eq_false (hline : t.line = line) :
    (Cursor.mk (some line) (t :: rest)).endsCommand = false := by
  show (!(t.line == line) || t.token.closesBlock || decide (t.token = .symbol .semicolon)) = false
  rw [hline, beq_self_eq_true]
  generalize t.token = next at ht
  cases next with
  | keyword k => cases k <;> first | rfl | cases ht
  | symbol s => cases s <;> first | rfl | cases ht
  | _ => rfl

lemma takesArguments_eq_true (hparen : t.token ≠ .symbol .openParen)
    (hbracket : t.token ≠ .symbol .openBracket) :
    (Cursor.mk (some line) (t :: rest)).takesArguments = true := by
  show (t.token.startsExpression && decide _ && decide _) = true
  rw [ht, decide_eq_true hparen, decide_eq_true hbracket]
  rfl

end

section

variable {literal : LiteralReader} {fuel : Nat} {e : Expr} {c : Cursor} {q : Option Nat}
  {tail : List Located}

/-- An expression without operators is read at every level, if it ends where it does. -/
lemma expressionAt_levels (htail : EndExpression tail) {k : Nat} (hk : k ≤ 6)
    (h : expressionAt literal fuel 7 c = .ok (e, ⟨q, tail⟩)) :
    expressionAt literal (fuel + k) (7 - k) c = .ok (e, ⟨q, tail⟩) := by
  obtain ⟨fuel, rfl⟩ : ∃ j, fuel = j + 1 := by
    cases fuel with
    | zero => cases h
    | succ fuel => exact ⟨fuel, rfl⟩
  induction k with
  | zero => exact h
  | succ k ih =>
    have hlevel : 7 - (k + 1) + 1 = 7 - k := by omega
    rw [← Nat.add_assoc, expressionAt, if_pos (by omega), hlevel, bind_apply (ih (by omega)),
      Nat.add_right_comm]
    exact operatorChain_stop htail

/-- A name is read as an identifier where no arrow follows. -/
lemma primary_name {t : Located} {word : String} (ht : t.token = .name word) {p : Option Nat}
    {rest : List Located} (hrest : (Cursor.mk (some t.line) rest).head? ≠ some (.symbol .arrow)) :
    primary literal (fuel + 1) ⟨p, t :: rest⟩ = .ok (.ident word, ⟨some t.line, rest⟩) := by
  rw [primary, get_bind_apply, Cursor.head?_cons, ht]
  show (eat (.symbol .arrow) >>= fun arrow =>
    if arrow then lambdaBody literal fuel [word] else pure (.ident word) : Reader Expr)
      ⟨some t.line, rest⟩ = _
  rw [eat_bind_of_ne hrest]
  rfl

/-- Arguments in parentheses behind a head. -/
lemma suffixes_call {tokens : List Located} {values : List Expr} {opener close : Located}
    {line : Nat} (h : Arguments literal tokens values) (htail : EndExpression tail)
    (hopen : opener.token = .symbol .openParen) (hline : opener.line = line)
    (hclose : close.token = .symbol .closeParen) (hfuel : enoughFor tokens < fuel) :
    suffixes literal (fuel + 1) e ⟨some line, opener :: (tokens ++ close :: tail)⟩ =
      .ok (.call e values, ⟨some close.line, tail⟩) := by
  obtain ⟨fuel, rfl⟩ : ∃ k, fuel = k + 1 := ⟨fuel - 1, by omega⟩
  have hread : callArguments literal (fuel + 1) ⟨some opener.line, tokens ++ close :: tail⟩ = _ :=
    h.callArguments hclose hfuel _
  obtain ⟨t, rest, rfl, ht⟩ := h.exists_cons
  have hfirst : (Cursor.mk (some opener.line) (t :: rest ++ close :: tail)).head? ≠
      some (.symbol .closeParen) := by
    rintro hhead
    rw [List.cons_append, Cursor.head?_cons, Option.some.injEq] at hhead
    rw [hhead] at ht
    cases ht
  rw [suffixes, get_bind_apply, Cursor.head?_cons, hopen, Cursor.onSameLine_cons, hline,
    Option.any_some, beq_self_eq_true]
  show (eat (.symbol .closeParen) >>= fun closed =>
    if closed then suffixes literal (fuel + 1) (.call e []) else do
      let args ← callArguments literal (fuel + 1)
      suffixes literal (fuel + 1) (.call e args) : Reader Expr) ⟨some opener.line, _⟩ = _
  rw [eat_bind_of_ne hfirst]
  exact (bind_apply hread).trans (suffixes_stop htail)

variable {tokens : List Located} {values : List Expr} {word : String} {t : Located}
  (hword : isCommandWord word = true) (ht : t.token = .name word)
  (h : Arguments literal tokens values) (htail : FollowCommand tail)
include hword ht h htail

/-- A command word with bare arguments behind it on its line. -/
lemma statement_bare (hline : ∀ u ∈ tokens.head?, u.line = t.line)
    (hparen : ∀ u ∈ tokens.head?, u.token ≠ .symbol .openParen)
    (hbracket : ∀ u ∈ tokens.head?, u.token ≠ .symbol .openBracket)
    (hfuel : enoughFor (t :: tokens) ≤ fuel) (p : Option Nat) :
    ∃ q, statement literal fuel ⟨p, t :: (tokens ++ tail)⟩ =
      .ok (.expr (.callNamed word values), ⟨q, tail⟩) := by
  simp only [enoughFor, List.length_cons] at hfuel
  obtain ⟨fuel, rfl⟩ : ∃ k, fuel = k + 2 := ⟨fuel - 2, by omega⟩
  have hcommand : statement literal (fuel + 2) ⟨p, t :: (tokens ++ tail)⟩ =
      command literal (fuel + 1) word ⟨p, t :: (tokens ++ tail)⟩ := by
    rw [statement, get_bind_apply, Cursor.head?_cons, ht]
    exact congrFun (if_pos hword) _
  have henough : enoughFor tokens < fuel := by
    simp only [enoughFor]
    omega
  obtain ⟨q, hread⟩ := h.commandArguments htail henough (some t.line)
  obtain ⟨u, rest, rfl, hu⟩ := h.exists_cons
  refine ⟨q, hcommand.trans ((command_of_takes ?_ ?_).trans (bind_apply hread))⟩
  · exact endsCommand_eq_false hu (hline u rfl)
  · exact takesArguments_eq_true hu (hparen u rfl) (hbracket u rfl)

/-- A command word with a call behind it. -/
lemma statement_call {opener close : Located} (hopen : opener.token = .symbol .openParen)
    (hline : opener.line = t.line) (hclose : close.token = .symbol .closeParen)
    (hfuel : enoughFor (t :: opener :: (tokens ++ [close])) ≤ fuel) (p : Option Nat) :
    ∃ q, statement literal fuel ⟨p, t :: opener :: (tokens ++ close :: tail)⟩ =
      .ok (.expr (.callNamed word values), ⟨q, tail⟩) := by
  -- the statement, the word, the expression and its levels use up some fuel before the arguments
  simp only [enoughFor, List.length_cons, List.length_append, List.length_nil] at hfuel
  obtain ⟨fuel, rfl⟩ : ∃ k, fuel = k + 12 := ⟨fuel - 12, by omega⟩
  have hends : (Cursor.mk (some t.line) (opener :: (tokens ++ close :: tail))).endsCommand =
      false := endsCommand_eq_false (by rw [hopen]; rfl) hline
  have htakes : (Cursor.mk (some t.line) (opener :: (tokens ++ close :: tail))).takesArguments =
      false := by
    unfold Cursor.takesArguments
    rw [Cursor.head?_cons, hopen]
    rfl
  have hhead : expressionAt literal (fuel + 3) 7 ⟨p, t :: opener :: (tokens ++ close :: tail)⟩ =
      .ok (.callNamed word values, ⟨some close.line, tail⟩) := by
    have hname : primary literal (fuel + 2) ⟨p, t :: opener :: (tokens ++ close :: tail)⟩ =
        .ok (.ident word, ⟨some t.line, opener :: (tokens ++ close :: tail)⟩) := by
      refine primary_name ht fun harrow => ?_
      cases hopen.symm.trans (Option.some.inj harrow)
    rw [expressionAt_head (by decide), bind_apply hname]
    · exact suffixes_call h htail.ends hopen hline hclose (by simp only [enoughFor]; omega)
    · rintro _ ⟨⟩
      show t.token.isPrefix = false
      rw [ht]
      rfl
  have hread := expressionAt_levels htail.ends (Nat.le_refl 6) hhead
  refine ⟨some close.line, ?_⟩
  rw [statement_of_word (c := ⟨p, t :: _⟩) (congrArg some ht) hword hends htakes,
    expressionStatement, get_bind_apply, bind_apply hread, eat_bind_of_ne (htail.head?_ne rfl)]
  rfl

end

/-! ### Tokens that are read as a statement -/

/-- Tokens that are read as a statement wherever a command may end behind them. -/
structure ReadAs (literal : LiteralReader) (tokens : List Located) (stmt : Stmt) : Prop where
  begins : ∃ t ∈ tokens.head?, t.token.beginsLine = true ∧ t.token.closesBlock = false
  reads {tail : List Located} {fuel : Nat} : FollowCommand tail → enoughFor tokens ≤ fuel →
    ∀ p, ∃ q, statement literal fuel ⟨p, tokens ++ tail⟩ = .ok (stmt, ⟨q, tail⟩)

section

variable {literal : LiteralReader}

lemma blockRest_of_closer {fuel opened : Nat} {closer : Located} {tail : List Located}
    (hcloser : closer.token.closesBlock = true) (hfuel : 0 < fuel) (p : Option Nat) :
    blockRest literal fuel opened ⟨p, closer :: tail⟩ = .ok ([], ⟨some closer.line, tail⟩) := by
  obtain ⟨fuel, rfl⟩ : ∃ k, fuel = k + 1 := ⟨fuel - 1, by omega⟩
  rw [blockRest, get_bind_apply, Cursor.head?_cons]
  exact congrFun (if_pos hcloser) _

end

namespace ReadAs

variable {literal : LiteralReader} {tokens tail : List Located} {stmt : Stmt} {fuel : Nat}
  (h : ReadAs literal tokens stmt)
include h

/-- A statement may be awaited. -/
lemma await {t : Located} (ht : t.token = .keyword .awaitKw) :
    ReadAs literal (t :: tokens) stmt where
  begins := ⟨t, rfl, by rw [ht]; decide, by rw [ht]; rfl⟩
  reads := by
    intro tail fuel htail hfuel p
    simp only [enoughFor, List.length_cons] at hfuel
    obtain ⟨fuel, rfl⟩ : ∃ k, fuel = k + 1 := ⟨fuel - 1, by omega⟩
    have henough : enoughFor tokens ≤ fuel := by
      simp only [enoughFor]
      omega
    obtain ⟨q, hread⟩ := h.reads htail henough (some t.line)
    refine ⟨q, ?_⟩
    rw [List.cons_append, statement, get_bind_apply, Cursor.head?_cons, ht]
    exact hread

lemma awaits {marks : List Located} (hmarks : ∀ t ∈ marks, t.token = .keyword .awaitKw) :
    ReadAs literal (marks ++ tokens) stmt := by
  induction marks with
  | nil => exact h
  | cons t marks ih =>
    obtain ⟨ht, hmarks⟩ := List.forall_mem_cons.1 hmarks
    exact (ih hmarks).await ht

lemma head? (tail : List Located) (p : Option Nat) :
    ∃ t, (Cursor.mk p (tokens ++ tail)).head? = some t ∧ t.beginsLine = true ∧
      t.closesBlock = false := by
  obtain ⟨t, ht, hbegins, hcloses⟩ := h.begins
  match tokens, ht with
  | u :: rest, ht =>
    obtain ⟨⟩ := ht
    exact ⟨_, rfl, hbegins, hcloses⟩

/-- In a block of its own, which either token may close. -/
lemma block {opener closer : Located} (hopener : opener.token = .symbol .openBrace)
    (hcloser : closer.token.closesBlock = true) (hfuel : enoughFor tokens + 2 ≤ fuel)
    (p : Option Nat) :
    Script.block literal fuel ⟨p, opener :: (tokens ++ closer :: tail)⟩ =
      .ok ([stmt], ⟨some closer.line, tail⟩) := by
  obtain ⟨fuel, rfl⟩ : ∃ k, fuel = k + 2 := ⟨fuel - 2, by omega⟩
  have htail : FollowCommand (closer :: tail) := by
    rintro _ ⟨⟩
    rcases Token.eq_of_closesBlock hcloser with hcloser | hcloser <;> rw [hcloser] <;> rfl
  obtain ⟨q, hread⟩ := h.reads htail (Nat.le_of_add_le_add_right hfuel) (some opener.line)
  obtain ⟨t, hhead, hbegins, hcloses⟩ := h.head? (closer :: tail) (some opener.line)
  rw [Script.block, get_bind_apply, bind_apply (expect_apply hopener),
    blockRest_of_statement hhead hbegins hcloses, bind_apply hread]
  have hpos : 0 < fuel := by
    simp only [enoughFor] at hfuel
    omega
  exact bind_apply (blockRest_of_closer hcloser hpos q)

/-- At the head of a program. -/
lemma programOf_append {program : Program} (htail : FollowCommand tail)
    (hprogram : programOf literal tail = .ok program) :
    programOf literal (tokens ++ tail) = .ok (stmt :: program) := by
  obtain ⟨t, hhead, hbegins, hcloses⟩ := h.head? tail none
  have hlength : tail.length < (tokens ++ tail).length := by
    obtain ⟨u, hu, -⟩ := h.begins
    have := List.length_pos_of_mem (List.mem_of_mem_head? hu)
    rw [List.length_append]
    omega
  have htokens : enoughFor tokens ≤ enoughFor (tokens ++ tail) := by
    simp only [enoughFor, List.length_append]
    omega
  have hmore : enoughFor tail ≤ enoughFor (tokens ++ tail) := by
    simp only [enoughFor]
    omega
  obtain ⟨q, hread⟩ := h.reads htail htokens none
  obtain ⟨d, hrest⟩ := programRest_of_programOf hprogram hlength hmore q
  exact run'_eq_of_apply ((programRest_of_statement hhead hbegins hcloses).trans
    ((bind_apply hread).trans (bind_apply hrest)))

end ReadAs

/-! ### Spelled forms -/

namespace Spells

variable {line : Nat} {t : Token} {ts us : List Token} {tokens : List Located}

lemma cons_iff : Spells line (t :: ts) tokens ↔
    ∃ u rest, tokens = u :: rest ∧ (u.token = t ∧ u.line = line) ∧ Spells line ts rest := by
  unfold Spells
  rw [List.map_cons, List.map_eq_cons_iff]
  simp only [Located.mark, Prod.mk.injEq]

lemma append_iff : Spells line (ts ++ us) tokens ↔
    ∃ first last, tokens = first ++ last ∧ Spells line ts first ∧ Spells line us last := by
  unfold Spells
  rw [List.map_append, List.map_eq_append_iff]

lemma nil_iff : Spells line [] tokens ↔ tokens = [] := by
  unfold Spells
  rw [List.map_nil, List.map_eq_nil_iff]

lemma token_mem (h : Spells line ts tokens) {u : Located} (hu : u ∈ tokens) : u.token ∈ ts := by
  have hmark : u.mark ∈ ts.map (·, line) := h ▸ List.mem_map_of_mem hu
  obtain ⟨t, ht, heq⟩ := List.mem_map.1 hmark
  exact (Prod.mk.inj heq).1 ▸ ht

lemma of_mem_head? (h : Spells line ts tokens) {u : Located} (hu : u ∈ tokens.head?) :
    ts.head? = some u.token ∧ u.line = line := by
  obtain ⟨rest, rfl⟩ := List.head?_eq_some_iff.1 hu
  obtain ⟨t, ts, rfl, heq, -⟩ := List.map_eq_cons_iff.1 h.symm
  obtain ⟨rfl, rfl⟩ := Prod.mk.inj heq
  exact ⟨rfl, rfl⟩

lemma onLine (line : Nat) (ts : List Token) : Spells line ts (onLine line ts) := by
  unfold Spells Script.onLine
  rw [List.map_map]
  rfl

/-- Where the tokens of an expression stand in the text does not matter. -/
lemma expressionOf {literal : LiteralReader} {e : Expr} (h : Spells line ts tokens)
    (he : expressionOf literal (Script.onLine line ts) = .ok e) :
    expressionOf literal tokens = .ok e :=
  ((sameOutcome_expressionOf (faithful_mark literal)
    (forall₂_mark (h.trans (onLine line ts).symm))).eq_ok_iff e).2 he

/-- Expressions with commas between them. -/
lemma arguments {literal : LiteralReader} {args : List (List Token)} {values : List Expr}
    (haccepted : List.Forall₂ (fun ts e => Script.expressionOf literal (Script.onLine line ts) =
      .ok e) args values) (hne : args ≠ [])
    (h : Spells line ([.symbol .comma].intercalate args) tokens) :
    Arguments literal tokens values := by
  induction haccepted generalizing tokens with
  | nil => exact (hne rfl).elim
  | cons hts hrest ih =>
    cases hrest with
    | nil =>
      rw [List.intercalate_singleton] at h
      exact .last (h.expressionOf hts)
    | cons _ _ =>
      rw [List.intercalate_cons_cons, List.append_assoc, append_iff] at h
      obtain ⟨first, last, rfl, hfirst, hlast⟩ := h
      obtain ⟨comma, rest, rfl, ⟨hcomma, -⟩, hrest⟩ := cons_iff.1 hlast
      exact .more (hfirst.expressionOf hts) hcomma (ih (by simp) hrest)

end Spells

section

variable {literal : LiteralReader} {line : Nat} {args : List (List Token)} {values : List Expr}
  {word : String} {tokens : List Located} (h : BareArguments literal line args values)
include h

/-- What stands behind the word in its bare form. -/
lemma BareArguments.head?_intercalate {t : Token}
    (ht : ([.symbol .comma].intercalate args).head? = some t) :
    t ≠ .symbol .openParen ∧ t ≠ .symbol .openBracket := by
  match args, h.nonempty with
  | ts :: more, _ =>
    obtain ⟨e, _, hts, -, -⟩ := List.forall₂_cons_left_iff.1 h.accepted
    have hhead : ts.head? = some t := by
      obtain ⟨u, rest, hcons, -⟩ := exists_of_accepted hts
      obtain ⟨v, ts, rfl, -⟩ := List.map_eq_cons_iff.1 hcons
      cases more with
      | nil => rwa [List.intercalate_singleton] at ht
      | cons _ _ => rwa [List.intercalate_cons_cons] at ht
    have hparen := h.paren ts rfl
    have hbracket := h.bracket ts rfl
    rw [hhead] at hparen hbracket
    exact ⟨fun h => hparen (congrArg some h), fun h => hbracket (congrArg some h)⟩

variable (hword : isCommandWord word = true)
include hword

lemma readAs_commandForm (htokens : Spells line (commandForm word args) tokens) :
    ReadAs literal tokens (.expr (.callNamed word values)) := by
  obtain ⟨t, rest, rfl, ⟨ht, hline⟩, hrest⟩ := Spells.cons_iff.1 htokens
  have hfirst : ∀ u ∈ rest.head?, u.line = t.line ∧ u.token ≠ .symbol .openParen ∧
      u.token ≠ .symbol .openBracket := by
    intro u hu
    obtain ⟨hhead, hsame⟩ := hrest.of_mem_head? hu
    exact ⟨hsame.trans hline.symm, h.head?_intercalate hhead⟩
  refine ⟨⟨t, rfl, by rw [ht]; rfl, by rw [ht]; rfl⟩, fun htail hfuel p => ?_⟩
  exact statement_bare hword ht (hrest.arguments h.accepted h.nonempty) htail
    (fun u hu => (hfirst u hu).1) (fun u hu => (hfirst u hu).2.1) (fun u hu => (hfirst u hu).2.2)
    hfuel p

lemma readAs_callForm (htokens : Spells line (callForm word args) tokens) :
    ReadAs literal tokens (.expr (.callNamed word values)) := by
  obtain ⟨t, rest, rfl, ⟨ht, hline⟩, hrest⟩ := Spells.cons_iff.1 htokens
  obtain ⟨opener, rest, rfl, ⟨hopen, hsame⟩, hrest⟩ := Spells.cons_iff.1 hrest
  obtain ⟨first, last, rfl, hfirst, hlast⟩ := Spells.append_iff.1 hrest
  obtain ⟨close, rest, rfl, ⟨hclose, -⟩, hrest⟩ := Spells.cons_iff.1 hlast
  obtain rfl := Spells.nil_iff.1 hrest
  refine ⟨⟨t, rfl, by rw [ht]; rfl, by rw [ht]; rfl⟩, fun {tail _} htail hfuel p => ?_⟩
  have hread := statement_call hword ht (hfirst.arguments h.accepted h.nonempty) htail hopen
    (hsame.trans hline.symm) hclose hfuel p
  simpa using hread

end

/-- **A command means the call.** Whether its arguments stand bare behind the word or in
parentheses, and whether the command is awaited or not, the tokens are read as the one call: as a
program, before any program that begins with a semicolon, a keyword or a name, in a block of their
own, which a brace or the word may close, and wherever else a statement is read. -/
theorem commandForms_agree {literal : LiteralReader} {word : String}
    (hword : isCommandWord word = true) {line : Nat} {args : List (List Token)}
    {values : List Expr} (h : BareArguments literal line args values) {form : List Token}
    (hform : form = commandForm word args ∨ form = callForm word args) (awaits : Nat)
    {tokens : List Located}
    (htokens : Spells line (List.replicate awaits (.keyword .awaitKw) ++ form) tokens) :
    programOf literal tokens = .ok [.expr (.callNamed word values)] ∧
      (∀ tail program, FollowCommand tail → programOf literal tail = .ok program →
        programOf literal (tokens ++ tail) = .ok (.expr (.callNamed word values) :: program)) ∧
      (∀ (opener closer : Located) (tail : List Located) (fuel : Nat) (previous : Option Nat),
        opener.token = .symbol .openBrace → closer.token.closesBlock = true →
        enoughFor tokens + 2 ≤ fuel →
          block literal fuel ⟨previous, opener :: (tokens ++ closer :: tail)⟩ =
            .ok ([.expr (.callNamed word values)], ⟨some closer.line, tail⟩)) ∧
      ReadAs literal tokens (.expr (.callNamed word values)) := by
  obtain ⟨marks, rest, rfl, hmarks, hrest⟩ := Spells.append_iff.1 htokens
  have hread : ReadAs literal rest (.expr (.callNamed word values)) := by
    rcases hform with rfl | rfl
    · exact readAs_commandForm h hword hrest
    · exact readAs_callForm h hword hrest
  have hawaited := hread.awaits fun t ht => List.eq_of_mem_replicate (hmarks.token_mem ht)
  have halone : programOf literal ((marks ++ rest) ++ []) = .ok [.expr (.callNamed word values)] :=
    hawaited.programOf_append .nil rfl
  rw [List.append_nil] at halone
  exact ⟨halone, fun _ _ => hawaited.programOf_append, fun _ _ _ _ p hopener hcloser hfuel =>
    hawaited.block hopener hcloser hfuel p, hawaited⟩

/-- Both forms of `print n, x => { clear }`, the first of them awaited, and a statement on the next
line. -/
theorem commandForms_agree_lambda :
    BareArguments plainLiteral 1
        [[.name "n"], [.name "x", .symbol .arrow, .symbol .openBrace, .name "clear",
          .symbol .closeBrace]]
        [.ident "n", .lambda (.mk none ["x"] [.expr (.callNamed "clear" [])])] ∧
      programOf plainLiteral (onLine 1 [.keyword .awaitKw, .name "print", .name "n", .symbol .comma,
          .name "x", .symbol .arrow, .symbol .openBrace, .name "clear", .symbol .closeBrace] ++
          onLine 2 [.keyword .breakKw]) =
        .ok [.expr (.callNamed "print" [.ident "n",
          .lambda (.mk none ["x"] [.expr (.callNamed "clear" [])])]), .break] ∧
      programOf plainLiteral (onLine 1 [.name "print", .symbol .openParen, .name "n",
          .symbol .comma, .name "x", .symbol .arrow, .symbol .openBrace, .name "clear",
          .symbol .closeBrace, .symbol .closeParen] ++ onLine 2 [.keyword .breakKw]) =
        .ok [.expr (.callNamed "print" [.ident "n",
          .lambda (.mk none ["x"] [.expr (.callNamed "clear" [])])]), .break] := by
  have hword : isCommandWord "print" = true := by decide
  have h : BareArguments plainLiteral 1
      [[.name "n"], [.name "x", .symbol .arrow, .symbol .openBrace, .name "clear",
        .symbol .closeBrace]]
      [.ident "n", .lambda (.mk none ["x"] [.expr (.callNamed "clear" [])])] :=
    ⟨by decide, .cons rfl (.cons rfl .nil), by decide, by decide⟩
  have hbreak : FollowCommand (onLine 2 [.keyword .breakKw]) := by
    rintro _ ⟨⟩
    rfl
  obtain ⟨-, hbare, -⟩ := commandForms_agree hword h (.inl rfl) 1 (.onLine 1 _)
  obtain ⟨-, hcall, -⟩ := commandForms_agree hword h (.inr rfl) 0 (.onLine 1 _)
  exact ⟨h, hbare _ _ hbreak rfl, hcall _ _ hbreak rfl⟩

end ScriptedNotes.Script
