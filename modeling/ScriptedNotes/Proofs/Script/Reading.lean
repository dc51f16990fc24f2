import ScriptedNotes.Proofs.Script.Lockstep
import ScriptedNotes.Proofs.Script.Printing

/-!
Readers on printed pieces. `Reads x c a rest` says that from the cursor `c` the reader `x` gives `a`
and takes everything but `rest`; there is a rule for each small reader, and rules for passing
through the levels of the operators.
-/

namespace ScriptedNotes.Script

open Reader

/-! ### Places in printed pieces -/

/-- The tokens of pieces, as if each covered no bytes. -/
def placed (line : Nat) : List Piece → List Located
  | [] => []
  | .token t :: ps => ⟨t, 0, 0, line⟩ :: placed line ps
  | .lineBreak :: ps => placed (line + 1) ps

/-- The place before some pieces on a line. -/
def Cursor.facing (previous : Option Nat) (line : Nat) (ps : List Piece) : Cursor :=
  ⟨previous, placed line ps⟩

/-- The place before some pieces and right behind a token. -/
abbrev Cursor.behind (line : Nat) (ps : List Piece) : Cursor := .facing (some line) line ps

/-- The next token of pieces. -/
def nextToken : List Piece → Option Token
  | [] => none
  | .token t :: _ => some t
  | .lineBreak :: ps => nextToken ps

/-- How many tokens pieces hold. -/
def tokenCount : List Piece → Nat
  | [] => 0
  | .token _ :: ps => tokenCount ps + 1
  | .lineBreak :: ps => tokenCount ps

section

variable {previous : Option Nat} {line : Nat} {ps qs : List Piece} {t : Token}

@[simp] lemma tokenCount_token (t : Token) (ps : List Piece) :
    tokenCount (.token t :: ps) = tokenCount ps + 1 := rfl

@[simp] lemma tokenCount_lineBreak (ps : List Piece) :
    tokenCount (.lineBreak :: ps) = tokenCount ps := rfl

@[simp] lemma tokenCount_append (ps qs : List Piece) :
    tokenCount (ps ++ qs) = tokenCount ps + tokenCount qs := by
  induction ps with
  | nil => exact (Nat.zero_add _).symm
  | cons p ps ih => cases p <;> simp [ih, Nat.add_right_comm]

lemma length_placed (line : Nat) (ps : List Piece) : (placed line ps).length = tokenCount ps := by
  induction ps generalizing line with
  | nil => rfl
  | cons p ps ih => cases p <;> simp [placed, ih]

lemma map_mark_placed (line : Nat) (ps : List Piece) :
    (placed line ps).map Located.mark = printed line ps := by
  induction ps generalizing line with
  | nil => rfl
  | cons p ps ih => cases p <;> simp [placed, printed, Located.mark, ih]

@[simp] lemma facing_head? (previous : Option Nat) (line : Nat) (ps : List Piece) :
    (Cursor.facing previous line ps).head? = nextToken ps := by
  induction ps generalizing line with
  | nil => rfl
  | cons p ps ih =>
    cases p with
    | token t => rfl
    | lineBreak => exact ih (line + 1)

lemma facing_lineBreak (previous : Option Nat) (line : Nat) (ps : List Piece) :
    Cursor.facing previous line (.lineBreak :: ps) = .facing previous (line + 1) ps := rfl

lemma line_le_of_placed : ∀ u ∈ placed line ps, line ≤ u.line := by
  induction ps generalizing line with
  | nil => simp [placed]
  | cons p ps ih =>
    cases p with
    | token t => exact List.forall_mem_cons.2 ⟨Nat.le_refl _, ih⟩
    | lineBreak => exact fun u hu => Nat.le_trans (Nat.le_succ line) (ih u hu)

lemma onSameLine_token : (Cursor.behind line (.token t :: ps)).onSameLine = true :=
  beq_self_eq_true line

/-- A line break parts the next token from the one before. -/
lemma onSameLine_lineBreak : (Cursor.behind line (.lineBreak :: ps)).onSameLine = false := by
  show Cursor.onSameLine ⟨some line, placed (line + 1) ps⟩ = false
  match h : placed (line + 1) ps with
  | [] => rfl
  | u :: us =>
    have hle : line + 1 ≤ u.line := line_le_of_placed u (h ▸ List.mem_cons_self)
    have hne : u.line ≠ line := by omega
    exact beq_eq_false_iff_ne.2 hne

end

/-! ### Steps of readers -/

section

variable {α β : Type}

lemma get_bind_apply (f : Cursor → Reader α) (c : Cursor) : (get >>= f) c = f c c := rfl

lemma bind_apply {x : Reader α} {f : α → Reader β} {c d : Cursor} {a : α} (h : x c = .ok (a, d)) :
    (x >>= f) c = f a d := by
  show Except.bind (x c) (fun (a, c) => f a c) = _
  rw [h]
  rfl

end

/-! ### Reading -/

/-- From a cursor a reader gives a value and takes all tokens before some pieces, the last of them
one right before those. -/
def Reads {α : Type} (x : Reader α) (c : Cursor) (a : α) (rest : List Piece) : Prop :=
  ∃ line, x c = .ok (a, .behind line rest)

namespace Reads

variable {α β : Type} {x : Reader α} {f : α → Reader β} {c : Cursor} {a : α} {b : β}
  {previous : Option Nat} {line : Nat} {ps rest : List Piece} {t : Token} {s : String}

lemma pure : Reads (pure a) (.behind line rest) a rest := ⟨line, rfl⟩

lemma bind (hx : Reads x c a ps) (hf : ∀ line, Reads (f a) (.behind line ps) b rest) :
    Reads (x >>= f) c b rest := by
  obtain ⟨line, hx⟩ := hx
  obtain ⟨line', hf⟩ := hf line
  exact ⟨line', (bind_apply hx).trans hf⟩

/-- A reader may be followed along the branch that it takes. -/
lemma via (y : Reader α) (hxy : x c = y c) (hy : Reads y c a rest) : Reads x c a rest := by
  obtain ⟨line, hy⟩ := hy
  exact ⟨line, hxy.trans hy⟩

lemma discard (hx : Reads x c a rest) : Reads (discard x) c () rest := by
  obtain ⟨line, hx⟩ := hx
  refine ⟨line, ?_⟩
  show Except.bind (x c) _ = _
  rw [hx]
  rfl

lemma skip : Reads skip (.facing previous line (.token t :: rest)) () rest := ⟨line, rfl⟩

lemma eat : Reads (eat t) (.facing previous line (.token t :: rest)) true rest := by
  refine ⟨line, ?_⟩
  show (if some t = some t then _ else _ : Reader Bool) _ = _
  rw [if_pos rfl]
  rfl

/-- A token that does not come next is not taken. -/
lemma eat_other (h : nextToken rest ≠ some t) :
    Reads (Reader.eat t) (.behind line rest) false rest := by
  refine ⟨line, ?_⟩
  show (if (Cursor.behind line rest).head? = some t then _ else _ : Reader Bool) _ = _
  rw [facing_head?, if_neg h]
  rfl

lemma expect : Reads (expect t) (.facing previous line (.token t :: rest)) () rest :=
  .bind .eat fun _ => .pure

lemma name {role : String} :
    Reads (name role) (.facing previous line (.name s :: rest)) s rest := ⟨line, rfl⟩

end Reads

/-! ### What ends an expression -/

/-- Whether an expression ends before a token that stands on its line. -/
def Token.endsExpression (t : Token) : Bool :=
  t ≠ .symbol .dot && t ≠ .symbol .arrow && t ≠ .symbol .openParen && t ≠ .symbol .openBracket &&
    (binaryOp? t).isNone

/-- Whether a statement may begin with a token, or a block end with it, on a line of its own. -/
def Token.beginsLine : Token → Bool
  | .keyword k => k ≠ .elifKw && k ≠ .elseKw
  | .symbol s => s = .openParen || s = .closeBrace
  | .number _ | .string _ | .name _ => true

/-- Pieces behind a statement: nothing, or a new line. -/
inductive FreshLine : List Piece → Prop
  | nil : FreshLine []
  | line {t : Token} (ps : List Piece) (h : t.beginsLine = true) :
    FreshLine (.lineBreak :: .token t :: ps)

/-- Pieces before which an expression ends when its operators have a level or a tighter one. -/
structure Stops (level : Nat) (rest : List Piece) : Prop where
  dot : nextToken rest ≠ some (.symbol .dot)
  arrow : nextToken rest ≠ some (.symbol .arrow)
  operator {op : BinaryOp} : (nextToken rest).bind binaryOp? = some op → op.level < level
  paren : rest.head? ≠ some (.symbol .openParen)
  bracket : rest.head? ≠ some (.symbol .openBracket)

section

variable {level : Nat} {rest ps : List Piece} {t : Token}

lemma Stops.mono {level' : Nat} (h : Stops level rest) (hle : level ≤ level') :
    Stops level' rest :=
  { h with operator := fun hop => Nat.lt_of_lt_of_le (h.operator hop) hle }

lemma Stops.token (ht : t.endsExpression = true) : Stops level (.token t :: ps) := by
  simp only [Token.endsExpression, Bool.and_eq_true, decide_eq_true_eq,
    Option.isNone_iff_eq_none] at ht
  obtain ⟨⟨⟨⟨hdot, harrow⟩, hparen⟩, hbracket⟩, hop⟩ := ht
  refine ⟨?_, ?_, ?_, ?_, ?_⟩
  · simpa [nextToken] using hdot
  · simpa [nextToken] using harrow
  · intro op h
    rw [nextToken, Option.bind_some, hop] at h
    cases h
  · simpa using hparen
  · simpa using hbracket

lemma BinaryOp.level_le (op : BinaryOp) : 1 ≤ op.level ∧ op.level ≤ 6 := by
  cases op <;> decide

@[simp] lemma binaryOp?_token (op : BinaryOp) : binaryOp? op.token = some op := by
  cases op <;> rfl

/-- The left operand of an operator ends before it. -/
lemma Stops.operatorToken (op : BinaryOp) : Stops (op.level + 1) (.token op.token :: ps) := by
  refine ⟨?_, ?_, ?_, ?_, ?_⟩
  · cases op <;> simp [nextToken, BinaryOp.token]
  · cases op <;> simp [nextToken, BinaryOp.token]
  · intro op' h
    rw [nextToken, Option.bind_some, binaryOp?_token] at h
    obtain rfl := Option.some.inj h
    exact Nat.lt_succ_self _
  · cases op <;> simp [BinaryOp.token]
  · cases op <;> simp [BinaryOp.token]

lemma FreshLine.next (h : FreshLine rest) {t : Token} (ht : t.beginsLine = false) :
    nextToken rest ≠ some t := by
  cases h with
  | nil => simp [nextToken]
  | line ps hu =>
    rintro ⟨⟩
    exact Bool.noConfusion (hu.symm.trans ht)

lemma binaryOp?_of_beginsLine (h : t.beginsLine = true) : binaryOp? t = none := by
  match t with
  | .keyword _ | .number _ | .string _ | .name _ => rfl
  | .symbol s => cases s <;> first | rfl | cases h

lemma FreshLine.stops (h : FreshLine rest) : Stops level rest := by
  refine ⟨h.next rfl, h.next rfl, ?_, ?_, ?_⟩
  · cases h with
    | nil =>
      intro op h
      cases h
    | @line t ps ht =>
      intro op h
      cases (binaryOp?_of_beginsLine ht).symm.trans h
  · cases h <;> simp
  · cases h <;> simp

lemma FreshLine.onSameLine (h : FreshLine rest) (line : Nat) :
    (Cursor.behind line rest).onSameLine = false := by
  cases h with
  | nil => rfl
  | line ps _ => exact onSameLine_lineBreak

end

/-! ### Levels -/

section

variable {literal : LiteralReader} {level fuel : Nat} {rest : List Piece} {c : Cursor} {e : Expr}

lemma reads_operatorChain_stop {line : Nat} (h : Stops level rest) :
    Reads (operatorChain literal (fuel + 1) level e) (.behind line rest) e rest := by
  have hnone : (Cursor.behind line rest).operatorAt? level = none := by
    unfold Cursor.operatorAt?
    rw [facing_head?, Option.filter_eq_none_iff]
    intro op hop
    have := h.operator hop
    simpa using Nat.ne_of_lt this
  refine ⟨line, ?_⟩
  rw [operatorChain, get_bind_apply, hnone]
  rfl

/-- An operator of the level is taken with its right operand. -/
lemma operatorChain_token (op : BinaryOp) {previous : Option Nat} {line : Nat} :
    operatorChain literal (fuel + 1) op.level e (.facing previous line (.token op.token :: rest)) =
      (do
        skip
        let right ← expressionAt literal fuel (op.level + 1)
        operatorChain literal fuel op.level (.binary op e right) : Reader Expr)
      (.facing previous line (.token op.token :: rest)) := by
  cases op <;> rfl

lemma reads_suffixes_stop {line : Nat} (h : Stops level rest) :
    Reads (suffixes literal (fuel + 1) e) (.behind line rest) e rest := by
  have hopen : ∀ s : Symbol, rest.head? ≠ some (.symbol s) →
      nextToken rest = some (.symbol s) → (Cursor.behind line rest).onSameLine = false := by
    intro s hhead hnext
    match rest with
    | [] => rfl
    | .lineBreak :: ps => exact onSameLine_lineBreak
    | .token t :: ps =>
      rw [nextToken, Option.some.injEq] at hnext
      exact (hhead (by rw [hnext]; rfl)).elim
  refine ⟨line, ?_⟩
  rw [suffixes, get_bind_apply, facing_head?]
  have hparen := hopen .openParen h.paren
  have hbracket := hopen .openBracket h.bracket
  have hdot := h.dot
  generalize nextToken rest = next at hparen hbracket hdot
  generalize (Cursor.behind line rest).onSameLine = same at hparen hbracket
  cases same with
  | true =>
    simp only [if_true]
    split
    · exact (hdot rfl).elim
    · cases hparen rfl
    · cases hbracket rfl
    · rfl
  | false =>
    simp only [Bool.false_eq_true, if_false]
    split
    · exact (hdot rfl).elim
    · rfl
    · rfl
    · rfl

/-- An expression that is read at a level is read at each looser one, if it ends there. -/
lemma reads_expressionAt_down (top : Nat) (hle : level ≤ top) (htop : top ≤ 7)
    (hfuel : top - level < fuel) (hstops : Stops level rest)
    (h : Reads (expressionAt literal (fuel - (top - level)) top) c e rest) :
    Reads (expressionAt literal fuel level) c e rest := by
  induction hj : top - level generalizing level fuel with
  | zero =>
    obtain rfl : level = top := by omega
    simpa using h
  | succ j ih =>
    obtain ⟨f, rfl⟩ : ∃ f, fuel = f + 1 := ⟨fuel - 1, by omega⟩
    have hf : f - (top - (level + 1)) = f + 1 - (top - level) := by omega
    have hnext : Reads (expressionAt literal f (level + 1)) c e rest :=
      ih (by omega) (by omega) (hstops.mono (Nat.le_succ _)) (hf ▸ h) (by omega)
    rw [expressionAt, if_pos (by omega)]
    refine hnext.bind fun line => ?_
    obtain ⟨f, rfl⟩ : ∃ g, f = g + 1 := ⟨f - 1, by omega⟩
    exact reads_operatorChain_stop hstops

/-- Whether a token stands before an operand. -/
def Token.isPrefix (t : Token) : Bool :=
  t = .symbol .bang || t = .symbol .minus || t = .keyword .awaitKw

/-- At the tightest level a head is read, and then its suffixes. -/
lemma reads_expressionAt_head (hunary : ∀ t, c.head? = some t → t.isPrefix = false)
    (h : Reads (do
      let head ← primary literal fuel
      suffixes literal fuel head) c e rest) :
    Reads (expressionAt literal (fuel + 1) 7) c e rest := by
  obtain ⟨line, h⟩ := h
  refine ⟨line, ?_⟩
  rw [expressionAt, if_neg (by decide), get_bind_apply]
  generalize c.head? = next at hunary
  split
  · cases hunary _ rfl
  · cases hunary _ rfl
  · cases hunary _ rfl
  · exact h

/-- At the tightest level a head is read with its suffixes. -/
lemma reads_expressionAt_seven (hunary : ∀ t, c.head? = some t → t.isPrefix = false)
    {head : Expr} {ps : List Piece} (hhead : Reads (primary literal fuel) c head ps)
    (hsuffixes : ∀ line, Reads (suffixes literal fuel head) (.behind line ps) e rest) :
    Reads (expressionAt literal (fuel + 1) 7) c e rest :=
  reads_expressionAt_head hunary (hhead.bind hsuffixes)

/-! ### Branches of the readers -/

lemma arrayItems_of_item (h : c.head? ≠ some (.symbol .closeBracket)) :
    arrayItems literal (fuel + 1) c = (do
      let first ← expressionAt literal fuel 1
      if ← eat (.symbol .comma) then return first :: (← arrayItems literal fuel)
      else return [first] : Reader (List Expr)) c := by
  rw [arrayItems, get_bind_apply, if_neg h]

lemma blockRest_of_statement {t : Token} {opened : Nat} (h : c.head? = some t)
    (hbegins : t.beginsLine = true) (hcloses : t.closesBlock = false) :
    blockRest literal (fuel + 1) opened c = (do
      let first ← statement literal fuel
      return first :: (← blockRest literal fuel opened) : Reader (List Stmt)) c := by
  have hsemicolon : t ≠ .symbol .semicolon := by
    rintro rfl
    cases hbegins
  rw [blockRest, get_bind_apply, h]
  show (if t.closesBlock = true then _ else if t = .symbol .semicolon then _ else _ :
    Reader (List Stmt)) c = _
  rw [hcloses, if_neg Bool.false_ne_true, if_neg hsemicolon]

lemma programRest_of_statement {t : Token} {depth : Nat} (h : c.head? = some t)
    (hbegins : t.beginsLine = true) (hcloses : t.closesBlock = false) :
    programRest literal depth (fuel + 1) c = (do
      let first ← statement literal depth
      return first :: (← programRest literal depth fuel) : Reader Program) c := by
  have hsemicolon : t ≠ .symbol .semicolon := by
    rintro rfl
    cases hbegins
  rw [programRest, get_bind_apply, h]
  show (if t = .symbol .semicolon then _ else if t.closesBlock = true then _ else _ :
    Reader Program) c = _
  rw [hcloses, if_neg Bool.false_ne_true, if_neg hsemicolon]

lemma moreBranches_of_other (helif : c.head? ≠ some (.keyword .elifKw))
    (helse : c.head? ≠ some (.keyword .elseKw)) :
    moreBranches literal (fuel + 1) c = .ok (([], none), c) := by
  rw [moreBranches, get_bind_apply]
  generalize c.head? = next at helif helse
  split
  · exact (helif rfl).elim
  · exact (helse rfl).elim
  · rfl

/-- Whether a statement that begins with a token is an expression or an assignment, unless a name
that is a command word comes first. -/
def Token.beginsExpression : Token → Bool
  | .number _ | .string _ | .name _ => true
  | .keyword .trueKw | .keyword .falseKw | .keyword .nilKw => true
  | .symbol .openParen => true
  | _ => false

lemma beginsLine_of_beginsExpression {t : Token} (h : t.beginsExpression = true) :
    t.beginsLine = true ∧ t.closesBlock = false := by
  unfold Token.beginsExpression at h
  split at h
  all_goals first | exact ⟨rfl, rfl⟩ | cases h

lemma statement_of_expression {t : Token} (h : c.head? = some t)
    (ht : t.beginsExpression = true) (hname : ∀ s, t = .name s → isCommandWord s = false) :
    statement literal (fuel + 1) c = expressionStatement literal fuel c := by
  rw [statement, get_bind_apply, h]
  cases t with
  | number | string => rfl
  | keyword k => cases k <;> first | rfl | cases ht
  | symbol y => cases y <;> rfl
  | name word =>
    show (if isCommandWord word then _ else _ : Reader Stmt) c = _
    rw [hname word rfl]
    rfl

/-- A command word that neither ends its statement nor takes arguments is a name like any other. -/
lemma statement_of_word {word : String} (h : c.head? = some (.name word))
    (hword : isCommandWord word = true) (hends : c.advance.endsCommand = false)
    (htakes : c.advance.takesArguments = false) :
    statement literal (fuel + 2) c = expressionStatement literal fuel c := by
  rw [statement, get_bind_apply, h]
  show (if isCommandWord word then _ else _ : Reader Stmt) c = _
  rw [if_pos hword, command_apply, hends, htakes]
  rfl

end

end ScriptedNotes.Script
