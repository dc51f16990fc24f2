import ScriptedNotes.Proofs.Script.Interpolation
import ScriptedNotes.Proofs.Script.ReadingForms
import ScriptedNotes.Proofs.Script.Tight

/-!
Operators bind as tightly as their levels say. What the sparing printer writes is read back, on one
line and with no more parentheses than the levels ask for (`expressionOf_tight`). Operators of a
looser level, or suffixes, may go on behind an expression; so besides being read as a whole
(`ReadsWhole`) it is read as the left end of a chain of operators (`ReadsChain`) and as the head of
suffixes (`ReadsHead`).
-/

namespace ScriptedNotes.Script

open Reader

/-! ### Ways to be read -/

section

variable (literal : LiteralReader) (level : Nat) (ps : List Piece) (e : Expr)

/-- Pieces are read as an expression of a level, before what ends one. A fuel of sixteen for a token
is enough. -/
def ReadsWhole : Prop :=
  ∀ ⦃fuel line : Nat⦄ ⦃previous : Option Nat⦄ ⦃rest : List Piece⦄,
    16 * tokenCount ps ≤ fuel + level → Stops level rest →
    Reads (expressionAt literal fuel level) (.facing previous line (ps ++ rest)) e rest

/-- Pieces are read as the left operand of the operators of a level that go on behind it; these may
need a fuel of their own. -/
def ReadsChain : Prop :=
  ∀ ⦃needed fuel line : Nat⦄ ⦃previous : Option Nat⦄ ⦃rest rest' : List Piece⦄ ⦃e' : Expr⦄,
    16 * tokenCount ps + needed ≤ fuel + level + 1 → Stops (level + 1) rest →
    (∀ {fuel line : Nat}, needed ≤ fuel →
      Reads (operatorChain literal (fuel + 1) level e) (.behind line rest) e' rest') →
    Reads (do
      let left ← expressionAt literal fuel (level + 1)
      operatorChain literal fuel level left) (.facing previous line (ps ++ rest)) e' rest'

/-- Pieces are read as what the suffixes that go on behind them belong to. -/
def ReadsHead : Prop :=
  ∀ ⦃needed fuel line : Nat⦄ ⦃previous : Option Nat⦄ ⦃rest rest' : List Piece⦄ ⦃e' : Expr⦄,
    16 * tokenCount ps + needed ≤ fuel + 9 → nextToken rest ≠ some (.symbol .arrow) →
    (∀ {fuel line : Nat}, needed ≤ fuel →
      Reads (suffixes literal (fuel + 1) e) (.behind line rest) e' rest') →
    Reads (do
      let head ← primary literal fuel
      suffixes literal fuel head) (.facing previous line (ps ++ rest)) e' rest'

end

/-- How what is written for an expression begins. -/
structure BeginsTight (e : Expr) : Prop where
  head : ∃ t ps, tight e = .token t :: ps ∧ t.startsExpression = true ∧
    (8 ≤ e.level → t.isPrefix = false)
  /-- Only a name may be the beginning of parameters. -/
  noParams {t : Token} {line : Nat} {ps : List Piece} :
    (e.level = 9 → t ≠ .symbol .closeParen ∧ t ≠ .symbol .comma) →
    arrowFollows true (placed line (tight e ++ .token t :: ps)) = false

/-- What is written for an expression is read back in each way at every level that it fits. -/
structure ReadsTight (literal : LiteralReader) (e : Expr) : Prop extends BeginsTight e where
  whole {level : Nat} : 1 ≤ level → level ≤ 7 → level ≤ max 1 e.level →
    ReadsWhole literal level (tight e) e
  chain {level : Nat} : 1 ≤ level → level ≤ 6 → level ≤ e.level →
    ReadsChain literal level (tight e) e
  suffixed : 8 ≤ e.level → ReadsHead literal (tight e) e

/-- What is read as a whole at the next level comes first in a chain of operators. -/
lemma ReadsWhole.chain {literal : LiteralReader} {level : Nat} {ps : List Piece} {e : Expr}
    (h : ReadsWhole literal (level + 1) ps e) (hsix : level ≤ 6) (hcount : 0 < tokenCount ps) :
    ReadsChain literal level ps e := by
  intro needed fuel line previous rest rest' e' hfuel hstops hrest
  obtain ⟨f, rfl⟩ : ∃ f, fuel = f + 1 := ⟨fuel - 1, by omega⟩
  exact (h (by omega) hstops).bind fun line => hrest (by omega)

lemma BeginsTight.tokenCount_pos {e : Expr} (h : BeginsTight e) : 0 < tokenCount (tight e) := by
  obtain ⟨t, ps, hpieces, -⟩ := h.head
  rw [hpieces]
  exact Nat.succ_pos _

section

variable {literal : LiteralReader} {e : Expr} {level : Nat}

/-! ### In the place of an operand -/

lemma fitted_of_le (h : level ≤ e.level) (ps : List Piece) : fitted level e ps = ps := by
  unfold fitted operandOf
  rw [decide_eq_true h, if_pos rfl]

lemma fitted_of_lt (h : e.level < level) (ps : List Piece) :
    fitted level e ps = parenthesised ps := by
  unfold fitted operandOf
  rw [decide_eq_false (Nat.not_le.2 h), if_neg Bool.false_ne_true]

lemma tokenCount_parenthesised (ps : List Piece) :
    tokenCount (parenthesised ps) = tokenCount ps + 2 := by
  simp [parenthesised, tokenCount]

/-- Where a level is asked for, the expression begins like one. -/
lemma BeginsTight.head_fitted (h : BeginsTight e) (level : Nat) :
    ∃ t ps, fitted level e (tight e) = .token t :: ps ∧ t.startsExpression = true ∧
      (8 ≤ level → t.isPrefix = false) := by
  by_cases hlevel : level ≤ e.level
  · obtain ⟨t, ps, hpieces, ht, hhead⟩ := h.head
    rw [fitted_of_le hlevel]
    exact ⟨t, ps, hpieces, ht, fun height => hhead (by omega)⟩
  · rw [fitted_of_lt (Nat.not_le.1 hlevel)]
    exact ⟨_, _, rfl, rfl, fun _ => rfl⟩

/-- An operand is no list of parameters. -/
lemma BeginsTight.noParams_fitted (h : BeginsTight e) {t : Token} {line : Nat} {ps : List Piece}
    (hclose : t ≠ .symbol .closeParen) (hcomma : t ≠ .symbol .comma) :
    arrowFollows true (placed line (fitted level e (tight e) ++ .token t :: ps)) = false := by
  by_cases hlevel : level ≤ e.level
  · rw [fitted_of_le hlevel]
    exact h.noParams fun _ => ⟨hclose, hcomma⟩
  · rw [fitted_of_lt (Nat.not_le.1 hlevel)]
    rfl

/-- What an operand comes first in begins as the operand does. -/
lemma BeginsTight.of_fitted (h : BeginsTight e) {e' : Expr} {t : Token} {ps : List Piece}
    (hpieces : tight e' = fitted level e (tight e) ++ .token t :: ps)
    (hlevel : 8 ≤ e'.level → 8 ≤ level) (hclose : t ≠ .symbol .closeParen)
    (hcomma : t ≠ .symbol .comma) : BeginsTight e' := by
  obtain ⟨u, qs, hfitted, hu, hhead⟩ := h.head_fitted level
  refine ⟨⟨u, _, by rw [hpieces, hfitted]; rfl, hu, fun height => hhead (hlevel height)⟩,
    fun _ => ?_⟩
  rw [hpieces, List.append_assoc]
  exact h.noParams_fitted hclose hcomma

namespace ReadsTight

variable (h : ReadsTight literal e)
include h

lemma readsBack : ReadsBack literal tight e := by
  obtain ⟨t, ps, hpieces, ht, -⟩ := h.head
  refine ⟨⟨t, ps, hpieces, ht⟩, fun hfuel hstops => ?_⟩
  exact h.whole (Nat.le_refl 1) (by omega) (Nat.le_max_left _ _) (by omega) hstops

/-- In parentheses the expression is a head. -/
lemma group (hlevel : e.level < 9) {fuel line : Nat} {previous : Option Nat} {rest : List Piece}
    (hfuel : 16 * tokenCount (parenthesised (tight e)) ≤ fuel + 9) :
    Reads (primary literal fuel) (.facing previous line (parenthesised (tight e) ++ rest))
      e rest := by
  rw [tokenCount_parenthesised] at hfuel
  obtain ⟨f, rfl⟩ : ∃ f, fuel = f + 1 := ⟨fuel - 1, by omega⟩
  refine reads_group (h.noParams fun hnine => (by omega)) fun line => ?_
  exact h.readsBack.reads (by omega) (.token rfl)

lemma whole_fitted (hpos : 1 ≤ level) (hseven : level ≤ 7) :
    ReadsWhole literal level (fitted level e (tight e)) e := by
  by_cases hlevel : level ≤ e.level
  · rw [fitted_of_le hlevel]
    exact h.whole hpos hseven (by omega)
  · rw [fitted_of_lt (Nat.not_le.1 hlevel)]
    intro fuel line previous rest hfuel hstops
    have hcount := tokenCount_parenthesised (tight e)
    refine reads_expressionAt_down 7 hseven (Nat.le_refl 7) (by omega) hstops ?_
    obtain ⟨f, hf⟩ : ∃ f, fuel - (7 - level) = f + 2 := ⟨fuel - (7 - level) - 2, by omega⟩
    rw [hf]
    refine reads_expressionAt_seven (fun t ht => by cases ht; rfl) ?_ fun line =>
      reads_suffixes_stop hstops
    exact h.group (by omega) (by omega)

lemma chain_fitted (hpos : 1 ≤ level) (hsix : level ≤ 6) :
    ReadsChain literal level (fitted level e (tight e)) e := by
  by_cases hlevel : level ≤ e.level
  · rw [fitted_of_le hlevel]
    exact h.chain hpos hsix hlevel
  · -- In parentheses the expression fits the tighter level as well.
    have hsame : fitted level e (tight e) = fitted (level + 1) e (tight e) := by
      rw [fitted_of_lt (by omega), fitted_of_lt (by omega)]
    obtain ⟨t, ps, hpieces, -⟩ := h.head_fitted (level + 1)
    rw [hsame]
    refine (h.whole_fitted (by omega) (by omega)).chain hsix ?_
    rw [hpieces]
    exact Nat.succ_pos _

lemma suffixed_fitted : ReadsHead literal (fitted 8 e (tight e)) e := by
  by_cases hlevel : 8 ≤ e.level
  · rw [fitted_of_le hlevel]
    exact h.suffixed hlevel
  · rw [fitted_of_lt (Nat.not_le.1 hlevel)]
    intro needed fuel line previous rest rest' e' hfuel _ hrest
    have hcount := tokenCount_parenthesised (tight e)
    obtain ⟨f, rfl⟩ : ∃ f, fuel = f + 1 := ⟨fuel - 1, by omega⟩
    exact (h.group (by omega) (by omega)).bind fun line => hrest (by omega)

/-! ### From a level to the looser ones -/

omit h

/-- What is read as the left end of the operators of its own level is read at each looser level. -/
lemma of_chain (hpos : 1 ≤ e.level) (hsix : e.level ≤ 6) (hbegins : BeginsTight e)
    (hchain : ReadsChain literal e.level (tight e) e) : ReadsTight literal e := by
  have hcount := hbegins.tokenCount_pos
  have hwhole : ∀ {level : Nat}, 1 ≤ level → level ≤ e.level →
      ReadsWhole literal level (tight e) e := by
    intro level hlow hle fuel line previous rest hfuel hstops
    refine reads_expressionAt_down e.level hle (by omega) (by omega) hstops ?_
    obtain ⟨f, hf⟩ : ∃ f, fuel - (e.level - level) = f + 1 :=
      ⟨fuel - (e.level - level) - 1, by omega⟩
    have hfuel' : 16 * tokenCount (tight e) + 0 ≤ f + e.level + 1 := by omega
    rw [hf, expressionAt, if_pos hsix]
    exact hchain hfuel' (hstops.mono (by omega)) fun _ => reads_operatorChain_stop (hstops.mono hle)
  refine ⟨hbegins, fun hlow _ hle => hwhole hlow (by omega), ?_, fun height => (by omega)⟩
  intro level hlow _ hle
  rcases Nat.eq_or_lt_of_le hle with rfl | hlt
  · exact hchain
  · exact (hwhole (by omega) hlt).chain (by omega) hcount

/-- What is read as an operand of a prefix is read at each looser level. -/
lemma of_seven (hbegins : BeginsTight e) (hseven : ReadsWhole literal 7 (tight e) e)
    (hsuffixed : 8 ≤ e.level → ReadsHead literal (tight e) e) : ReadsTight literal e := by
  have hcount := hbegins.tokenCount_pos
  have hwhole : ∀ {level : Nat}, 1 ≤ level → level ≤ 7 → ReadsWhole literal level (tight e) e := by
    intro level hpos hle fuel line previous rest hfuel hstops
    refine reads_expressionAt_down 7 hle (Nat.le_refl 7) (by omega) hstops ?_
    exact hseven (by omega) (hstops.mono hle)
  refine ⟨hbegins, fun hpos hle _ => hwhole hpos hle, ?_, hsuffixed⟩
  exact fun hpos hsix _ => (hwhole (by omega) (by omega)).chain hsix hcount

/-- What is read as the head of suffixes is read at each looser level. -/
lemma of_head (hlevel : 8 ≤ e.level) (hbegins : BeginsTight e)
    (hsuffixed : ReadsHead literal (tight e) e) : ReadsTight literal e := by
  refine .of_seven hbegins ?_ fun _ => hsuffixed
  intro fuel line previous rest hfuel hstops
  obtain ⟨t, ps, hpieces, -, hhead⟩ := hbegins.head
  have hcount := hbegins.tokenCount_pos
  obtain ⟨f, rfl⟩ : ∃ f, fuel = f + 1 := ⟨fuel - 1, by omega⟩
  refine reads_expressionAt_head ?_ ?_
  · intro u hu
    rw [facing_head?, hpieces] at hu
    cases hu
    exact hhead hlevel
  · have hfuel' : 16 * tokenCount (tight e) + 0 ≤ f + 9 := by omega
    exact hsuffixed hfuel' hstops.arrow fun _ => reads_suffixes_stop hstops

/-- An expression that no suffix ends is read as a head by itself. -/
lemma of_primary (hlevel : 8 ≤ e.level) (hbegins : BeginsTight e)
    (hprimary : ∀ {fuel line : Nat} {previous : Option Nat} {rest : List Piece},
      16 * tokenCount (tight e) ≤ fuel + 10 → nextToken rest ≠ some (.symbol .arrow) →
      Reads (primary literal (fuel + 1)) (.facing previous line (tight e ++ rest)) e rest) :
    ReadsTight literal e := by
  refine .of_head hlevel hbegins ?_
  intro needed fuel line previous rest rest' e' hfuel harrow hrest
  have hcount := hbegins.tokenCount_pos
  obtain ⟨f, rfl⟩ : ∃ f, fuel = f + 1 := ⟨fuel - 1, by omega⟩
  exact (hprimary (by omega) harrow).bind fun line => hrest (by omega)

end ReadsTight

/-! ### The forms of expressions -/

lemma readsTight_number (x : Float) : ReadsTight literal (.number x) :=
  .of_primary (Nat.le_succ 8) ⟨⟨_, _, rfl, rfl, fun _ => rfl⟩, fun _ => rfl⟩ fun _ _ => reads_number

lemma readsTight_str (hliteral : ∀ (s : String) (line : Nat),
    literal (.ofList (escaped true s.toList)) line = .ok (.str s)) (s : String) :
    ReadsTight literal (.str s) :=
  .of_primary (Nat.le_succ 8) ⟨⟨_, _, rfl, rfl, fun _ => rfl⟩, fun _ => rfl⟩ fun _ _ =>
    reads_string (hliteral s)

lemma readsTight_bool (b : Bool) : ReadsTight literal (.bool b) := by
  cases b with
  | true =>
    exact .of_primary (Nat.le_succ 8) ⟨⟨_, _, rfl, rfl, fun _ => rfl⟩, fun _ => rfl⟩ fun _ _ =>
      reads_true
  | false =>
    exact .of_primary (Nat.le_succ 8) ⟨⟨_, _, rfl, rfl, fun _ => rfl⟩, fun _ => rfl⟩ fun _ _ =>
      reads_false

lemma readsTight_nil : ReadsTight literal .nil :=
  .of_primary (Nat.le_succ 8) ⟨⟨_, _, rfl, rfl, fun _ => rfl⟩, fun _ => rfl⟩ fun _ _ => reads_nil

lemma readsTight_ident (s : String) : ReadsTight literal (.ident s) := by
  refine .of_primary (Nat.le_succ 8) ⟨⟨_, _, rfl, rfl, fun _ => rfl⟩, ?_⟩ fun _ harrow =>
    reads_ident harrow
  intro t line ps hother
  obtain ⟨hclose, hcomma⟩ := hother rfl
  exact (Bool.true_and _).trans (arrowFollows_other hclose hcomma)

lemma readsTight_array {items : List Expr} (hitems : ∀ e ∈ items, ReadsTight literal e) :
    ReadsTight literal (.array items) := by
  have hpieces : ∀ rest, tight (.array items) ++ rest =
      .symbol .openBracket :: (separated (items.map tight) ++ .symbol .closeBracket :: rest) := by
    intro rest
    rw [tight, tightAll_eq_map]
    simp
  have hcount : tokenCount (tight (.array items)) =
      tokenCount (separated (items.map tight)) + 2 := by
    rw [tight, tightAll_eq_map]
    simp [tokenCount]
  refine .of_primary (Nat.le_succ 8) ⟨⟨_, _, rfl, rfl, fun _ => rfl⟩, fun _ => rfl⟩
    fun hfuel _ => ?_
  rw [hpieces]
  exact reads_array (fun e he => (hitems e he).readsBack) (by omega)

lemma readsTight_unary (op : UnaryOp) (he : ReadsTight literal e) :
    ReadsTight literal (.unary op e) := by
  have hpieces : tight (.unary op e) = .token op.token :: fitted 7 e (tight e) := rfl
  have hlevel : ¬ 8 ≤ (Expr.unary op e).level := Nat.not_succ_le_self 7
  refine .of_seven ⟨⟨_, _, hpieces, ?_, fun height => (hlevel height).elim⟩, ?_⟩ ?_
    fun height => (hlevel height).elim
  · cases op <;> rfl
  · intro t line ps _
    cases op <;> rfl
  · intro fuel line previous rest hfuel hstops
    rw [hpieces] at hfuel ⊢
    rw [tokenCount_token] at hfuel
    obtain ⟨f, rfl⟩ : ∃ f, fuel = f + 1 := ⟨fuel - 1, by omega⟩
    refine .via (do skip; return .unary op (← expressionAt literal f 7)) ?_ ?_
    · cases op <;> rfl
    · refine .bind .skip fun line => ?_
      exact .bind (he.whole_fitted (by omega) (Nat.le_refl 7) (by omega) hstops) fun _ => .pure

/-- The left operand takes the operator on, and what goes on behind goes on from the result. -/
lemma readsChain_binary (op : BinaryOp) {left right : Expr} (hl : ReadsTight literal left)
    (hr : ReadsTight literal right) :
    ReadsChain literal op.level (tight (.binary op left right)) (.binary op left right) := by
  obtain ⟨hpos, hsix⟩ := op.level_le
  have hpieces : tight (.binary op left right) = fitted op.level left (tight left) ++
      .token op.token :: fitted (op.level + 1) right (tight right) := rfl
  intro needed fuel line previous rest rest' e' hfuel hstops hrest
  rw [hpieces] at hfuel ⊢
  rw [tokenCount_append, tokenCount_token] at hfuel
  have hfuel' : 16 * tokenCount (fitted op.level left (tight left)) +
      (16 * tokenCount (fitted (op.level + 1) right (tight right)) + needed + 1) ≤
      fuel + op.level + 1 := by omega
  rw [List.append_assoc, List.cons_append]
  refine hl.chain_fitted hpos hsix hfuel' (.operatorToken op) fun {fuel line} hfuel => ?_
  obtain ⟨f, rfl⟩ : ∃ f, fuel = f + 1 := ⟨fuel - 1, by omega⟩
  refine .via _ (operatorChain_token op) (.bind .skip fun line => ?_)
  refine .bind (hr.whole_fitted (by omega) (by omega) (by omega) hstops) fun line => ?_
  exact hrest (by omega)

lemma readsTight_binary (op : BinaryOp) {left right : Expr} (hl : ReadsTight literal left)
    (hr : ReadsTight literal right) : ReadsTight literal (.binary op left right) := by
  have hpieces : tight (.binary op left right) = fitted op.level left (tight left) ++
      .token op.token :: fitted (op.level + 1) right (tight right) := rfl
  have hbegins : BeginsTight (.binary op left right) :=
    hl.of_fitted hpieces (fun height => height) (by cases op <;> simp [BinaryOp.token])
      (by cases op <;> simp [BinaryOp.token])
  exact .of_chain op.level_le.1 op.level_le.2 hbegins (readsChain_binary op hl hr)

lemma readsTight_member (property : String) (ho : ReadsTight literal e) :
    ReadsTight literal (.member e property) := by
  have hpieces : tight (.member e property) =
      fitted 8 e (tight e) ++ [.symbol .dot, .name property] := rfl
  have hbegins := ho.of_fitted hpieces (fun height => height) (by decide) (by decide)
  refine .of_head (Nat.le_refl 8) hbegins ?_
  intro needed fuel line previous rest rest' e' hfuel harrow hrest
  rw [hpieces] at hfuel ⊢
  simp only [tokenCount_token, tokenCount_append] at hfuel
  have hfuel' : 16 * tokenCount (fitted 8 e (tight e)) + (needed + 1) ≤ fuel + 9 := by omega
  rw [List.append_assoc]
  refine ho.suffixed_fitted hfuel' (fun h => by cases h) fun {fuel line} hfuel => ?_
  obtain ⟨f, rfl⟩ : ∃ f, fuel = f + 1 := ⟨fuel - 1, by omega⟩
  exact reads_suffixes_member fun line => hrest (by omega)

lemma readsTight_call {args : List Expr} (hc : ReadsTight literal e)
    (hargs : ∀ e ∈ args, ReadsTight literal e) : ReadsTight literal (.call e args) := by
  have hpieces : tight (.call e args) =
      fitted 8 e (tight e) ++ parenthesised (separated (args.map tight)) := by
    rw [tight, tightAll_eq_map]
  have hbegins := hc.of_fitted hpieces (fun height => height) (by decide) (by decide)
  refine .of_head (Nat.le_refl 8) hbegins ?_
  intro needed fuel line previous rest rest' e' hfuel harrow hrest
  rw [hpieces] at hfuel ⊢
  rw [tokenCount_append, tokenCount_parenthesised] at hfuel
  have hfuel' : 16 * tokenCount (fitted 8 e (tight e)) +
      (needed + 16 * tokenCount (separated (args.map tight)) + 1) ≤ fuel + 9 := by omega
  rw [List.append_assoc]
  refine hc.suffixed_fitted hfuel' (fun h => by cases h) fun {fuel line} hfuel => ?_
  obtain ⟨f, rfl⟩ : ∃ f, fuel = f + 1 := ⟨fuel - 1, by omega⟩
  exact reads_suffixes_call (fun e he => (hargs e he).readsBack) (by omega) fun line =>
    hrest (by omega)

lemma readsTight_index {index : Expr} (ho : ReadsTight literal e)
    (hi : ReadsTight literal index) : ReadsTight literal (.index e index) := by
  have hpieces : tight (.index e index) = fitted 8 e (tight e) ++
      .symbol .openBracket :: (tight index ++ [.symbol .closeBracket]) := rfl
  have hbegins := ho.of_fitted hpieces (fun height => height) (by decide) (by decide)
  refine .of_head (Nat.le_refl 8) hbegins ?_
  intro needed fuel line previous rest rest' e' hfuel harrow hrest
  rw [hpieces] at hfuel ⊢
  simp only [tokenCount_token, tokenCount_append] at hfuel
  have hfuel' : 16 * tokenCount (fitted 8 e (tight e)) +
      (needed + 16 * tokenCount (tight index) + 1) ≤ fuel + 9 := by omega
  rw [List.append_assoc, List.cons_append, List.append_assoc]
  refine ho.suffixed_fitted hfuel' (fun h => by cases h) fun {fuel line} hfuel => ?_
  obtain ⟨f, rfl⟩ : ∃ f, fuel = f + 1 := ⟨fuel - 1, by omega⟩
  exact reads_suffixes_index hi.readsBack (by omega) fun line => hrest (by omega)

lemma readsTight_lambda (params : List String) (hb : ReadsTight literal e) :
    ReadsTight literal (.lambda (.mk none params [.return (some e)])) := by
  have hlevel : (Expr.lambda (.mk none params [.return (some e)])).level = 0 := rfl
  have hpieces : tight (.lambda (.mk none params [.return (some e)])) =
      .keyword .fnKw :: (paramList params ++ .symbol .arrow :: tight e) := rfl
  refine ⟨⟨⟨_, _, hpieces, rfl, fun height => (by omega)⟩, fun _ => rfl⟩, ?_,
    fun hpos _ hle => (by omega), fun height => (by omega)⟩
  intro level hpos _ hle fuel line previous rest hfuel hstops
  obtain rfl : level = 1 := by omega
  rw [hpieces] at hfuel ⊢
  simp only [tokenCount_token, tokenCount_append] at hfuel
  rw [List.cons_append, List.append_assoc, List.cons_append]
  refine reads_expressionAt_down 7 (by omega) (Nat.le_refl 7) (by omega) hstops ?_
  obtain ⟨f, hf⟩ : ∃ f, fuel - (7 - 1) = f + 3 := ⟨fuel - (7 - 1) - 3, by omega⟩
  rw [hf]
  refine reads_expressionAt_seven (fun t ht => by cases ht; rfl) ?_ fun line =>
    reads_suffixes_stop hstops
  refine .via (do
    skip
    let ps ← Script.params
    discard <| eat (.symbol .arrow)
    lambdaBody literal (f + 1) ps) rfl ?_
  refine .bind .skip fun line => .bind (reads_params params) fun line => ?_
  refine .bind (.discard .eat) fun line => ?_
  refine .via (do
    return .lambda (.mk none params [.return (some (← expressionAt literal f 1))])) ?_ ?_
  · rw [lambdaBody, get_bind_apply, facing_head?, if_neg (hb.readsBack.nextToken_ne rfl rest)]
  · exact .bind (hb.whole (Nat.le_refl 1) (by omega) (Nat.le_max_left _ _) (by omega) hstops)
      fun _ => .pure

/-- What is written for an expression is read back by any reader of its literals. -/
lemma readsTight (hliteral : ∀ (s : String) (line : Nat),
    literal (.ofList (escaped true s.toList)) line = .ok (.str s)) (h : OneLine e) :
    ReadsTight literal e := by
  induction h with
  | number x => exact readsTight_number x
  | str s => exact readsTight_str hliteral s
  | bool b => exact readsTight_bool b
  | nil => exact readsTight_nil
  | ident s => exact readsTight_ident s
  | array _ ih => exact readsTight_array ih
  | unary op _ ih => exact readsTight_unary op ih
  | binary op _ _ ihl ihr => exact readsTight_binary op ihl ihr
  | call _ _ ih ihargs => exact readsTight_call ih ihargs
  | member property _ ih => exact readsTight_member property ih
  | index _ _ ih ihindex => exact readsTight_index ih ihindex
  | lambda params _ ih => exact readsTight_lambda params ih

end

/-! ### Whole expressions -/

/-- **Operators bind as tightly as their levels say.** Printed on one line with no more parentheses
than the levels ask for, an expression is read back, and all of its tokens are taken. -/
theorem expressionOf_tight (interpolated : Bool) {e : Expr} (h : OneLine e) (line : Nat)
    (tokens : List Located) (htokens : tokens.map Located.mark = printed line (tight e)) :
    expressionOf (literalReader interpolated) tokens = .ok e ∧
      (∃ c : Cursor, c.rest = [] ∧ expressionAt (literalReader interpolated) (enoughFor tokens) 1
        (.ofTokens tokens) = .ok (e, c)) ∧
      ∀ t ∈ tokens, t.line = line := by
  have hcount : tokens.length = tokenCount (tight e) := by
    rw [← length_placed line, ← List.length_map (f := Located.mark), htokens, ← map_mark_placed,
      List.length_map]
  have hread : Reads (expressionAt (literalReader interpolated) (enoughFor tokens) 1)
      (.facing none line (tight e)) e [] := by
    have hfuel : 16 * tokenCount (tight e) ≤ enoughFor tokens := by
      rw [enoughFor, hcount]
      omega
    have hback := (readsTight (literalReader_escaped interpolated) h).readsBack
    have hwhole : Reads _ (.facing none line (tight e ++ [])) e [] :=
      hback.reads hfuel FreshLine.nil.stops
    rwa [List.append_nil] at hwhole
  obtain ⟨hparsed, hend⟩ := expressionOf_printed htokens hread
  refine ⟨hparsed, hend, fun t ht => ?_⟩
  have hmark : t.mark ∈ printed line (tight e) := htokens ▸ List.mem_map_of_mem ht
  exact (unbroken_tight h).line_eq line t.mark hmark

/-- An expression that needs parentheses on the right of an operator, around a function that is
called, and around an operand that takes a suffix. -/
def bracketed : Expr :=
  .member (.binary .sub (.ident "a") (.binary .sub (.unary .neg (.str "\x7b\\"))
    (.call (.lambda (.mk none ["p"] [.return (some (.ident "p"))])) [.nil, .bool true]))) "length"

theorem expressionOf_tight_bracketed :
    OneLine bracketed ∧
      expressionOf (literalReader true) (placed 1 (tight bracketed)) = .ok bracketed := by
  have hcall : OneLine (.call (.lambda (.mk none ["p"] [.return (some (.ident "p"))]))
      [.nil, .bool true]) := by
    refine .call (.lambda _ (.ident "p")) ?_
    simp only [List.forall_mem_cons]
    exact ⟨.nil, .bool true, List.forall_mem_nil _⟩
  have honeLine : OneLine bracketed :=
    .member _ (.binary _ (.ident "a") (.binary _ (.unary _ (.str _)) hcall))
  exact ⟨honeLine, (expressionOf_tight true honeLine 1 _ (map_mark_placed 1 _)).1⟩

end ScriptedNotes.Script
