import Mathlib.Data.List.Forall2
import ScriptedNotes.Script.Grammar

/-!
Readers on token lists that correspond one to one. When corresponding tokens differ in nothing that
the grammar looks at, every reader goes the same way on both lists: it gives the same value and
leaves corresponding cursors, or fails on both (`Lockstep`). Which tokens correspond and which
failures are alike are parameters (`Faithful`).
-/

namespace ScriptedNotes.Script

open Reader

/-- Expectations that the grammar itself has, with nothing of the source in them. -/
def Expectation.Fixed : Expectation → Prop
  | .token (.keyword _) | .token (.symbol _) => True
  | .token _ => False
  | .name role => role ∈ ["parameter name", "property name", "loop variable", "variable name"]
  | .expression | .endOfInput | .noOpenBlock => True

section

variable (R : Located → Located → Prop) (E : SyntaxError → SyntaxError → Prop)

/-- Cursors at corresponding places. -/
structure Cursor.Alike (c d : Cursor) : Prop where
  previous : c.previous = d.previous
  rest : List.Forall₂ R c.rest d.rest

/-- What a correspondence of tokens and one of failures must keep for the readers to go the same
way. -/
structure Faithful (literal : LiteralReader) : Prop where
  line {t u : Located} : R t u → t.line = u.line
  token {t u : Located} : R t u →
    t.token = u.token ∨ t.token.closesBlock = true ∧ u.token.closesBlock = true
  unexpected {c d : Cursor} {sought : Expectation} :
    c.Alike R d → sought.Fixed → E (c.unexpected sought) (d.unexpected sought)
  block (opened line : Nat) : E (.unterminatedBlock opened line) (.unterminatedBlock opened line)
  target (line : Nat) : E (.invalidTarget line) (.invalidTarget line)
  literal {t u : Located} {raw : String} {line : Nat} {e : SyntaxError} :
    R t u → t.token = .string raw → literal raw line = .error e → E e e

/-- Two outcomes of readers that correspond. -/
def Agree {α : Type} : Except SyntaxError (α × Cursor) → Except SyntaxError (α × Cursor) → Prop
  | .ok (a, c), .ok (b, d) => a = b ∧ c.Alike R d
  | .error e, .error f => E e f
  | _, _ => False

/-- A reader that goes the same way from corresponding cursors. -/
def Lockstep {α : Type} (x : Reader α) : Prop :=
  ∀ c d : Cursor, c.Alike R d → Agree R E (x c) (x d)

end

/-! ### Cursors -/

namespace Cursor.Alike

variable {R : Located → Located → Prop} {E : SyntaxError → SyntaxError → Prop}
  {literal : LiteralReader} {c d : Cursor}

lemma line (hR : Faithful R E literal) (h : c.Alike R d) : c.line = d.line := by
  obtain ⟨previous, rest⟩ := c
  obtain ⟨previous', rest'⟩ := d
  obtain ⟨rfl, hrest⟩ := h
  cases hrest with
  | nil => rfl
  | cons htu _ => exact hR.line htu

lemma onSameLine (hR : Faithful R E literal) (h : c.Alike R d) : c.onSameLine = d.onSameLine := by
  obtain ⟨previous, rest⟩ := c
  obtain ⟨previous', rest'⟩ := d
  obtain ⟨rfl, hrest⟩ := h
  cases hrest with
  | nil => rfl
  | cons htu _ =>
    cases previous with
    | none => rfl
    | some line => simp only [Cursor.onSameLine, hR.line htu]

lemma advance (hR : Faithful R E literal) (h : c.Alike R d) : c.advance.Alike R d.advance := by
  obtain ⟨previous, rest⟩ := c
  obtain ⟨previous', rest'⟩ := d
  obtain ⟨rfl, hrest⟩ := h
  cases hrest with
  | nil => exact ⟨rfl, .nil⟩
  | cons htu hrest => exact ⟨congrArg some (hR.line htu), hrest⟩

end Cursor.Alike

lemma Token.eq_of_closesBlock {t : Token} (h : t.closesBlock = true) :
    t = .symbol .closeBrace ∨ t = .keyword .endKw := by
  unfold closesBlock at h
  split at h
  · exact .inl rfl
  · exact .inr rfl
  · cases h

section

variable {R : Located → Located → Prop} {E : SyntaxError → SyntaxError → Prop}
  {literal : LiteralReader} {c d : Cursor}

/-- The first tokens of corresponding lists are the same, or one closes a block with a brace where
the other does so with a word. -/
lemma head_of_forall₂ (hR : Faithful R E literal) {s s' : List Located}
    (h : List.Forall₂ R s s') {motive : Option Token → Option Token → Prop}
    (refl : ∀ t, motive t t)
    (brace : motive (some (.symbol .closeBrace)) (some (.keyword .endKw)))
    (word : motive (some (.keyword .endKw)) (some (.symbol .closeBrace))) :
    motive (s.head?.map (·.token)) (s'.head?.map (·.token)) := by
  cases h with
  | nil => exact refl none
  | @cons t u _ _ htu _ =>
    show motive (some t.token) (some u.token)
    rcases hR.token htu with h | ⟨ht, hu⟩
    · rw [h]
      exact refl _
    · rcases Token.eq_of_closesBlock ht with ht | ht <;>
        rcases Token.eq_of_closesBlock hu with hu | hu <;> rw [ht, hu]
      · exact refl _
      · exact brace
      · exact word
      · exact refl _

/-- A fact about the next tokens of two cursors follows from its three cases. -/
@[elab_as_elim]
lemma Cursor.Alike.head_rec {motive : Option Token → Option Token → Prop} (h : c.Alike R d)
    (hR : Faithful R E literal) (refl : ∀ t, motive t t)
    (brace : motive (some (.symbol .closeBrace)) (some (.keyword .endKw)))
    (word : motive (some (.keyword .endKw)) (some (.symbol .closeBrace))) :
    motive c.head? d.head? :=
  head_of_forall₂ hR h.rest refl brace word

lemma Cursor.Alike.exists_of_head (h : c.Alike R d) {t : Token} (ht : c.head? = some t) :
    ∃ v u, R v u ∧ v.token = t := by
  obtain ⟨previous, rest⟩ := c
  obtain ⟨previous', rest'⟩ := d
  obtain ⟨-, hrest⟩ := h
  cases hrest with
  | nil => cases ht
  | cons hvu _ => exact ⟨_, _, hvu, Option.some.inj ht⟩

@[elab_as_elim]
lemma Cursor.Alike.second_rec {motive : Option Token → Option Token → Prop} (h : c.Alike R d)
    (hR : Faithful R E literal) (refl : ∀ t, motive t t)
    (brace : motive (some (.symbol .closeBrace)) (some (.keyword .endKw)))
    (word : motive (some (.keyword .endKw)) (some (.symbol .closeBrace))) :
    motive c.second? d.second? :=
  head_of_forall₂ hR (List.forall₂_drop 1 h.rest) refl brace word

lemma Cursor.Alike.operatorAt? (h : c.Alike R d) (hR : Faithful R E literal) (level : Nat) :
    c.operatorAt? level = d.operatorAt? level := by
  unfold Cursor.operatorAt?
  exact h.head_rec hR (fun _ => rfl) rfl rfl

lemma arrowFollows_eq (hR : Faithful R E literal) {s s' : List Located}
    (h : List.Forall₂ R s s') (wantsName : Bool) :
    arrowFollows wantsName s = arrowFollows wantsName s' := by
  induction h generalizing wantsName with
  | nil => rfl
  | @cons t u s s' htu hs ih =>
    rw [arrowFollows, arrowFollows]
    have hhead : (s.head?.map (·.token) = some (.symbol .arrow)) ↔
        s'.head?.map (·.token) = some (.symbol .arrow) :=
      head_of_forall₂ hR hs (motive := fun a b => a = some (.symbol .arrow) ↔
        b = some (.symbol .arrow)) (fun _ => Iff.rfl) (by decide) (by decide)
    rcases hR.token htu with h | ⟨ht, hu⟩
    · rw [h, ih, ih]
      simp only [hhead]
    · rcases Token.eq_of_closesBlock ht with ht | ht <;>
        rcases Token.eq_of_closesBlock hu with hu | hu <;> rw [ht, hu]

end

/-! ### Rules -/

namespace Lockstep

variable {R : Located → Located → Prop} {E : SyntaxError → SyntaxError → Prop}
  {literal : LiteralReader} {α β : Type}

lemma pure (a : α) : Lockstep R E (pure a) := fun _ _ h => ⟨rfl, h⟩

/-- What is read from a cursor is read from each that corresponds to it. -/
lemma of_ok {x : Reader α} (hx : Lockstep R E x) {c d c' : Cursor} {a : α} (h : c.Alike R d)
    (hc : x c = .ok (a, c')) : ∃ d', x d = .ok (a, d') ∧ c'.Alike R d' := by
  have hagree := hx c d h
  rw [hc] at hagree
  match hd : x d with
  | .ok (b, d') =>
    rw [hd] at hagree
    obtain ⟨rfl, h'⟩ := hagree
    exact ⟨d', rfl, h'⟩
  | .error e =>
    rw [hd] at hagree
    exact hagree.elim

lemma bind {x : Reader α} {f : α → Reader β} (hx : Lockstep R E x)
    (hf : ∀ a, Lockstep R E (f a)) : Lockstep R E (x >>= f) := by
  intro c d h
  have hxcd := hx c d h
  show Agree R E (Except.bind (x c) fun (a, c) => f a c) (Except.bind (x d) fun (a, d) => f a d)
  match hc : x c, hd : x d with
  | .ok (a, c'), .ok (b, d') =>
    rw [hc, hd] at hxcd
    obtain ⟨rfl, h'⟩ := hxcd
    exact hf a c' d' h'
  | .error e, .error f =>
    rw [hc, hd] at hxcd
    exact hxcd
  | .ok (_, _), .error _ | .error _, .ok (_, _) =>
    rw [hc, hd] at hxcd
    exact hxcd.elim

/-- A reader that looks at the cursor and sees the same at any two that correspond. -/
lemma getAlike {f : Cursor → Reader α} (hsame : ∀ {c d : Cursor}, c.Alike R d → f c = f d)
    (hf : ∀ {c d : Cursor}, c.Alike R d → Lockstep R E (f c)) : Lockstep R E (get >>= f) := by
  intro c d h
  show Agree R E (f c c) (f d d)
  rw [← hsame h]
  exact hf h c d h

lemma get {f : Cursor → Reader α} (hsame : ∀ {c d : Cursor}, c.Alike R d → f c = f d)
    (hf : ∀ c, Lockstep R E (f c)) : Lockstep R E (get >>= f) :=
  .getAlike hsame fun {c _} _ => hf c

lemma fail {e : SyntaxError} (he : E e e) : Lockstep R E (fail e : Reader α) := fun _ _ _ => he

section

variable (hR : Faithful R E literal)
include hR

lemma unexpected {sought : Expectation} (hs : sought.Fixed) :
    Lockstep R E (unexpected sought : Reader α) := fun _ _ h => hR.unexpected h hs

lemma skip : Lockstep R E skip := fun _ _ h => ⟨rfl, h.advance hR⟩

lemma eat {t : Token} (ht : t.closesBlock = false) : Lockstep R E (eat t) := by
  have hne : ∀ u : Token, u.closesBlock = true → some u ≠ some t := by
    rintro u hu ⟨⟩
    exact Bool.noConfusion (hu.symm.trans ht)
  refine .get (fun h => ?_) fun c => ?_
  · refine h.head_rec hR (fun _ => rfl) ?_ ?_ <;> rw [if_neg (hne _ rfl), if_neg (hne _ rfl)]
  · split
    · exact .bind (skip hR) fun _ => .pure true
    · exact .pure false

lemma expect {t : Token} (ht : t.closesBlock = false) (hs : (Expectation.token t).Fixed) :
    Lockstep R E (expect t) := by
  refine .bind (eat hR ht) fun found => ?_
  cases found with
  | true => exact .pure ()
  | false => exact unexpected hR hs

lemma name {role : String} (hs : (Expectation.name role).Fixed) : Lockstep R E (name role) := by
  refine .get (fun h => h.head_rec hR (fun _ => rfl) rfl rfl) fun c => ?_
  split
  · exact .bind (skip hR) fun _ => .pure _
  · exact unexpected hR hs

lemma expectEnd : Lockstep R E expectEnd := by
  refine .get (fun h => h.head_rec hR (fun _ => rfl) rfl rfl) fun c => ?_
  split
  · exact unexpected hR trivial
  · exact .pure ()

lemma paramNames (fuel : Nat) : Lockstep R E (paramNames fuel) := by
  induction fuel with
  | zero => exact unexpected hR (by simp [Expectation.Fixed])
  | succ fuel ih =>
    refine .bind (name hR (by simp [Expectation.Fixed])) fun first =>
      .bind (eat hR rfl) fun last => ?_
    split
    · exact .pure _
    · exact .bind (expect hR rfl trivial) fun _ => .bind ih fun rest => .pure _

lemma params : Lockstep R E params := by
  refine .bind (expect hR rfl trivial) fun _ => .bind (eat hR rfl) fun closed => ?_
  split
  · exact .pure _
  · refine .get (fun h => ?_) fun c => paramNames hR _
    rw [h.rest.length_eq]

end

end Lockstep

/-! ### The grammar -/

/-- Whether the place behind a command word ends the command. -/
def Cursor.endsCommand (c : Cursor) : Bool :=
  match c.head? with
  | none => true
  | some t => !c.onSameLine || t.closesBlock || t = .symbol .semicolon

/-- Whether an argument of a command stands at a place. -/
def Cursor.takesArguments (c : Cursor) : Bool :=
  c.head?.any fun t =>
    t.startsExpression && t ≠ .symbol .openParen && t ≠ .symbol .openBracket

/-- The three ways a command word is read. -/
lemma command_apply (literal : LiteralReader) (fuel : Nat) (word : String) (c : Cursor) :
    command literal (fuel + 1) word c =
      if c.advance.endsCommand then .ok (.expr (.callNamed word []), c.advance)
      else if c.advance.takesArguments then
        (commandArguments literal fuel >>= fun args =>
          pure (.expr (.callNamed word args))) c.advance
      else expressionStatement literal fuel c := by
  rw [command]
  unfold Cursor.endsCommand Cursor.takesArguments
  show (match c.advance.head? with | none => _ | some t => _ : Reader Stmt) c.advance = _
  cases c.advance.head? with
  | none => rfl
  | some t =>
    simp only [Option.any_some]
    split_ifs <;> rfl

section

variable (R : Located → Located → Prop) (E : SyntaxError → SyntaxError → Prop)
  (literal : LiteralReader)

/-- The readers of the grammar go the same way at a fuel. -/
structure GrammarInLockstep (fuel : Nat) : Prop where
  expressionAt (level : Nat) : Lockstep R E (expressionAt literal fuel level)
  operatorChain (level : Nat) (left : Expr) : Lockstep R E (operatorChain literal fuel level left)
  suffixes (head : Expr) : Lockstep R E (suffixes literal fuel head)
  callArguments : Lockstep R E (callArguments literal fuel)
  arrayItems : Lockstep R E (arrayItems literal fuel)
  primary : Lockstep R E (primary literal fuel)
  lambdaBody (ps : List String) : Lockstep R E (lambdaBody literal fuel ps)
  block : Lockstep R E (block literal fuel)
  blockRest (opened : Nat) : Lockstep R E (blockRest literal fuel opened)
  statement : Lockstep R E (statement literal fuel)
  declaration (constant : Bool) : Lockstep R E (declaration literal fuel constant)
  moreBranches : Lockstep R E (moreBranches literal fuel)
  command (word : String) : Lockstep R E (command literal fuel word)
  commandArguments : Lockstep R E (commandArguments literal fuel)
  expressionStatement : Lockstep R E (expressionStatement literal fuel)

end

namespace GrammarInLockstep

variable {R : Located → Located → Prop} {E : SyntaxError → SyntaxError → Prop}
  {literal : LiteralReader} (hR : Faithful R E literal) {fuel : Nat}
include hR

open Lockstep

lemma zero : GrammarInLockstep R E literal 0 := by
  constructor <;> intros <;> exact unexpected hR trivial

variable (ih : GrammarInLockstep R E literal fuel)
include ih

lemma expressionAt_succ (level : Nat) :
    Lockstep R E (Script.expressionAt literal (fuel + 1) level) := by
  rw [Script.expressionAt]
  split
  · exact .bind (ih.expressionAt _) fun left => ih.operatorChain level left
  · refine .get (fun h => h.head_rec hR (fun _ => rfl) rfl rfl) fun c => ?_
    split
    · exact .bind (skip hR) fun _ => .bind (ih.expressionAt level) fun e => .pure _
    · exact .bind (skip hR) fun _ => .bind (ih.expressionAt level) fun e => .pure _
    · exact .bind (skip hR) fun _ => ih.expressionAt level
    · exact .bind ih.primary fun head => ih.suffixes head

lemma operatorChain_succ (level : Nat) (left : Expr) :
    Lockstep R E (Script.operatorChain literal (fuel + 1) level left) := by
  rw [Script.operatorChain]
  refine .get (fun h => by rw [h.operatorAt? hR]) fun c => ?_
  split
  · exact .bind (skip hR) fun _ => .bind (ih.expressionAt _) fun right => ih.operatorChain level _
  · exact .pure left

lemma suffixes_succ (head : Expr) : Lockstep R E (Script.suffixes literal (fuel + 1) head) := by
  rw [Script.suffixes]
  refine .get (fun h => ?_) fun c => ?_
  · rw [h.onSameLine hR]
    exact h.head_rec hR (fun _ => rfl) rfl rfl
  split
  · exact .bind (skip hR) fun _ => .bind (name hR (by simp [Expectation.Fixed])) fun property =>
      ih.suffixes _
  · split
    · refine .bind (skip hR) fun _ => .bind (eat hR rfl) fun closed => ?_
      split
      · exact ih.suffixes _
      · exact .bind ih.callArguments fun args => ih.suffixes _
    · exact .pure head
  · split
    · exact .bind (skip hR) fun _ => .bind (ih.expressionAt 1) fun index =>
        .bind (expect hR rfl trivial) fun _ => ih.suffixes _
    · exact .pure head
  · exact .pure head

lemma callArguments_succ : Lockstep R E (Script.callArguments literal (fuel + 1)) := by
  rw [Script.callArguments]
  refine .bind (ih.expressionAt 1) fun first => .bind (eat hR rfl) fun closed => ?_
  split
  · exact .pure _
  · exact .bind (expect hR rfl trivial) fun _ => .bind ih.callArguments fun rest => .pure _

lemma arrayItems_succ : Lockstep R E (Script.arrayItems literal (fuel + 1)) := by
  rw [Script.arrayItems]
  refine .get (fun h => h.head_rec hR (fun _ => rfl) rfl rfl) fun c => ?_
  split
  · exact .pure []
  · refine .bind (ih.expressionAt 1) fun first => .bind (eat hR rfl) fun comma => ?_
    split
    · exact .bind ih.arrayItems fun rest => .pure _
    · exact .pure _

lemma primary_succ : Lockstep R E (Script.primary literal (fuel + 1)) := by
  rw [Script.primary]
  refine .getAlike (fun h => ?_) fun {c d} h => ?_
  · rw [h.line hR, arrowFollows_eq hR (List.forall₂_drop 1 h.rest)]
    exact h.head_rec hR (fun _ => rfl) rfl rfl
  split
  · exact .bind (skip hR) fun _ => .pure _
  · next raw hraw =>
    refine .bind (skip hR) fun _ => ?_
    split
    · exact .pure _
    · next e he =>
      obtain ⟨t, u, ht, htoken⟩ := h.exists_of_head hraw
      exact fail (hR.literal ht htoken he)
  · exact .bind (skip hR) fun _ => .pure _
  · exact .bind (skip hR) fun _ => .pure _
  · exact .bind (skip hR) fun _ => .pure _
  · refine .bind (skip hR) fun _ => .bind (eat hR rfl) fun arrow => ?_
    split
    · exact ih.lambdaBody _
    · exact .pure _
  · exact .bind (skip hR) fun _ => .bind (Lockstep.params hR) fun ps =>
      .bind (.bind (eat hR rfl) fun _ => .pure _) fun _ => ih.lambdaBody ps
  · split
    · exact .bind (Lockstep.params hR) fun ps => .bind (expect hR rfl trivial) fun _ =>
        ih.lambdaBody ps
    · exact .bind (skip hR) fun _ => .bind (ih.expressionAt 1) fun e =>
        .bind (expect hR rfl trivial) fun _ => .pure e
  · exact .bind (skip hR) fun _ => .bind ih.arrayItems fun items =>
      .bind (expect hR rfl trivial) fun _ => .pure _
  · exact unexpected hR trivial

lemma lambdaBody_succ (ps : List String) :
    Lockstep R E (Script.lambdaBody literal (fuel + 1) ps) := by
  rw [Script.lambdaBody]
  refine .get (fun h => h.head_rec hR (fun _ => rfl) rfl rfl) fun c => ?_
  split
  · exact .bind ih.block fun body => .pure _
  · exact .bind (ih.expressionAt 1) fun e => .pure _

lemma block_succ : Lockstep R E (Script.block literal (fuel + 1)) := by
  rw [Script.block]
  refine .get (fun h => by rw [h.line hR]) fun c => ?_
  exact .bind (expect hR rfl trivial) fun _ => ih.blockRest _

lemma blockRest_succ (opened : Nat) :
    Lockstep R E (Script.blockRest literal (fuel + 1) opened) := by
  rw [Script.blockRest]
  refine .get (fun h => ?_) fun c => ?_
  · rw [h.line hR]
    exact h.head_rec hR (fun _ => rfl) rfl rfl
  split
  · exact fail (hR.block _ _)
  · split_ifs
    · exact .bind (skip hR) fun _ => .pure []
    · exact .bind (skip hR) fun _ => ih.blockRest opened
    · exact .bind ih.statement fun first => .bind (ih.blockRest opened) fun rest => .pure _

omit hR in
lemma branch : Lockstep R E (do
    let condition ← Script.expressionAt literal fuel 1
    let body ← Script.block literal fuel
    let (branches, otherwise) ← Script.moreBranches literal fuel
    return (Branch.mk condition body :: branches, otherwise)) :=
  .bind (ih.expressionAt 1) fun _ => .bind ih.block fun _ =>
    .bind ih.moreBranches fun _ => .pure _

lemma moreBranches_succ : Lockstep R E (Script.moreBranches literal (fuel + 1)) := by
  rw [Script.moreBranches]
  refine .get (fun h => ?_) fun c => ?_
  · refine h.second_rec hR (fun t => ?_) ?_ ?_
    · exact h.head_rec hR (fun _ => rfl) rfl rfl
    · exact h.head_rec hR (fun _ => rfl) rfl rfl
    · exact h.head_rec hR (fun _ => rfl) rfl rfl
  split
  · exact .bind (skip hR) fun _ => branch ih
  · refine .bind (skip hR) fun _ => ?_
    split
    · exact .bind (skip hR) fun _ => branch ih
    · exact .bind ih.block fun body => .pure _
  · exact .pure _

lemma statement_succ : Lockstep R E (Script.statement literal (fuel + 1)) := by
  rw [Script.statement]
  refine .get (fun h => ?_) fun c => ?_
  · refine h.second_rec hR (fun t => ?_) ?_ ?_
    · exact h.head_rec hR (fun _ => rfl) rfl rfl
    · exact h.head_rec hR (fun _ => rfl) rfl rfl
    · exact h.head_rec hR (fun _ => rfl) rfl rfl
  split
  · exact .bind (skip hR) fun _ => ih.declaration false
  · exact .bind (skip hR) fun _ => ih.declaration true
  · split
    · exact .bind (skip hR) fun _ => .bind (skip hR) fun _ => .bind (Lockstep.params hR) fun ps =>
        .bind ih.block fun body => .pure _
    · exact ih.expressionStatement
  · exact .bind (skip hR) fun _ => .bind (ih.expressionAt 1) fun condition =>
      .bind ih.block fun body => .bind ih.moreBranches fun _ => .pure _
  · refine .bind (skip hR) fun _ => .bind (name hR (by simp [Expectation.Fixed])) fun var =>
      .bind (expect hR rfl trivial) fun _ => .bind (ih.expressionAt 1) fun first =>
        .bind (eat hR rfl) fun dots => ?_
    split
    · exact .bind (ih.expressionAt 1) fun stop => .bind ih.block fun body => .pure _
    · exact .bind ih.block fun body => .pure _
  · exact .bind (skip hR) fun _ => .bind (ih.expressionAt 1) fun condition =>
      .bind ih.block fun body => .pure _
  · exact .bind (skip hR) fun _ => .bind ih.block fun body => .bind (expect hR rfl trivial) fun _ =>
      .bind ih.block fun handler => .pure _
  · refine .bind (skip hR) fun _ => .get (fun h => ?_) fun c => ?_
    · rw [h.onSameLine hR]
      exact h.head_rec hR (fun _ => rfl) rfl rfl
    · split
      · exact .bind (ih.expressionAt 1) fun e => .pure _
      · exact .pure _
  · exact .bind (skip hR) fun _ => .bind (ih.expressionAt 1) fun e => .pure _
  · exact .bind (skip hR) fun _ => .pure _
  · exact .bind (skip hR) fun _ => .pure _
  · exact .bind (skip hR) fun _ => ih.statement
  · split
    · exact ih.command _
    · exact ih.expressionStatement
  · exact ih.expressionStatement

lemma declaration_succ (constant : Bool) :
    Lockstep R E (Script.declaration literal (fuel + 1) constant) := by
  rw [Script.declaration]
  refine .bind (name hR (by simp [Expectation.Fixed])) fun var => .bind (eat hR rfl) fun given => ?_
  split
  · exact .bind (ih.expressionAt 1) fun e => .pure _
  · exact .pure _

lemma command_succ (word : String) : Lockstep R E (Script.command literal (fuel + 1) word) := by
  intro c d h
  have hc := h.advance hR
  have hends : c.advance.endsCommand = d.advance.endsCommand := by
    unfold Cursor.endsCommand
    rw [hc.onSameLine hR]
    exact hc.head_rec hR (fun _ => rfl) (by simp [Token.closesBlock]) (by simp [Token.closesBlock])
  have htakes : c.advance.takesArguments = d.advance.takesArguments := by
    unfold Cursor.takesArguments
    exact hc.head_rec hR (fun _ => rfl) rfl rfl
  rw [command_apply, command_apply, hends, htakes]
  split_ifs
  · exact ⟨rfl, hc⟩
  · exact Lockstep.bind ih.commandArguments (fun args => .pure _) _ _ hc
  · exact ih.expressionStatement c d h

lemma commandArguments_succ : Lockstep R E (Script.commandArguments literal (fuel + 1)) := by
  rw [Script.commandArguments]
  refine .bind (ih.expressionAt 1) fun first => .bind (eat hR rfl) fun comma => ?_
  split
  · exact .bind ih.commandArguments fun rest => .pure _
  · exact .pure _

lemma expressionStatement_succ :
    Lockstep R E (Script.expressionStatement literal (fuel + 1)) := by
  rw [Script.expressionStatement]
  refine .get (fun h => by rw [h.line hR]) fun c => ?_
  refine .bind (ih.expressionAt 1) fun e => .bind (eat hR rfl) fun assigned => ?_
  split
  · split
    · exact .bind (ih.expressionAt 1) fun value => .pure _
    · exact fail (hR.target _)
  · exact .pure _

omit ih in
theorem succ (ih : GrammarInLockstep R E literal fuel) :
    GrammarInLockstep R E literal (fuel + 1) where
  expressionAt := expressionAt_succ hR ih
  operatorChain := operatorChain_succ hR ih
  suffixes := suffixes_succ hR ih
  callArguments := callArguments_succ hR ih
  arrayItems := arrayItems_succ hR ih
  primary := primary_succ hR ih
  lambdaBody := lambdaBody_succ hR ih
  block := block_succ hR ih
  blockRest := blockRest_succ hR ih
  statement := statement_succ hR ih
  declaration := declaration_succ hR ih
  moreBranches := moreBranches_succ hR ih
  command := command_succ hR ih
  commandArguments := commandArguments_succ hR ih
  expressionStatement := expressionStatement_succ hR ih

end GrammarInLockstep

section

variable {R : Located → Located → Prop} {E : SyntaxError → SyntaxError → Prop}
  {literal : LiteralReader} (hR : Faithful R E literal)
include hR

/-- **Every reader of the grammar goes the same way on corresponding tokens.** -/
theorem grammarInLockstep (fuel : Nat) : GrammarInLockstep R E literal fuel := by
  induction fuel with
  | zero => exact .zero hR
  | succ fuel ih => exact .succ hR ih

theorem lockstep_programRest (depth fuel : Nat) :
    Lockstep R E (programRest literal depth fuel) := by
  induction fuel with
  | zero => exact .pure []
  | succ fuel ih =>
    rw [programRest]
    refine .get (fun h => h.head_rec hR (fun _ => rfl) rfl rfl) fun c => ?_
    split
    · exact .pure []
    · split_ifs
      · exact .bind (.skip hR) fun _ => ih
      · exact .unexpected hR trivial
      · exact .bind (grammarInLockstep hR depth).statement fun first => .bind ih fun rest => .pure _

end

/-! ### Whole sources -/

/-- Two outcomes with the same value or with failures that are alike. -/
def SameOutcome {α : Type} (E : SyntaxError → SyntaxError → Prop) :
    Except SyntaxError α → Except SyntaxError α → Prop
  | .ok a, .ok b => a = b
  | .error e, .error f => E e f
  | _, _ => False

lemma SameOutcome.eq_ok_iff {α : Type} {E : SyntaxError → SyntaxError → Prop}
    {x y : Except SyntaxError α} (h : SameOutcome E x y) (a : α) : x = .ok a ↔ y = .ok a := by
  cases x <;> cases y
  · exact ⟨nofun, nofun⟩
  · exact h.elim
  · exact h.elim
  · rw [show _ = _ from h]

section

variable {R : Located → Located → Prop} {E : SyntaxError → SyntaxError → Prop}
  {literal : LiteralReader} {ts us : List Located}

lemma Lockstep.run {α : Type} {x : Reader α} (hx : Lockstep R E x) (h : List.Forall₂ R ts us) :
    SameOutcome E (x.run' (.ofTokens ts)) (x.run' (.ofTokens us)) := by
  have hagree := hx (.ofTokens ts) (.ofTokens us) ⟨rfl, h⟩
  show SameOutcome E ((·.1) <$> x (.ofTokens ts)) ((·.1) <$> x (.ofTokens us))
  match ht : x (.ofTokens ts), hu : x (.ofTokens us) with
  | .ok (_, _), .ok (_, _) =>
    rw [ht, hu] at hagree
    exact hagree.1
  | .error _, .error _ | .ok (_, _), .error _ | .error _, .ok (_, _) =>
    rw [ht, hu] at hagree
    exact hagree

variable (hR : Faithful R E literal) (h : List.Forall₂ R ts us)
include hR h

theorem sameOutcome_programOf : SameOutcome E (programOf literal ts) (programOf literal us) := by
  unfold programOf enoughFor
  rw [h.length_eq]
  exact (lockstep_programRest hR _ _).run h

theorem sameOutcome_expressionOf :
    SameOutcome E (expressionOf literal ts) (expressionOf literal us) := by
  unfold expressionOf enoughFor
  rw [h.length_eq]
  refine Lockstep.run (.bind ((grammarInLockstep hR _).expressionAt 1) fun e =>
    .bind (.expectEnd hR) fun _ => .pure e) h

theorem sameOutcome_argumentsOf :
    SameOutcome E (argumentsOf literal ts) (argumentsOf literal us) := by
  cases h with
  | nil => exact rfl
  | cons htu hrest =>
    have h := List.Forall₂.cons htu hrest
    unfold argumentsOf enoughFor
    rw [h.length_eq]
    exact Lockstep.run (.bind (grammarInLockstep hR _).commandArguments fun args =>
      .bind (.expectEnd hR) fun _ => .pure args) h

end

/-! ### Tokens and lines -/

/-- A token and its line, without the bytes that it covers. -/
def Located.mark (t : Located) : Token × Nat := (t.token, t.line)

/-- The grammar looks at nothing but tokens and lines. -/
lemma faithful_mark (literal : LiteralReader) :
    Faithful (fun t u => t.mark = u.mark) (fun _ _ => True) literal where
  line h := congrArg Prod.snd h
  token h := .inl (congrArg Prod.fst h)
  unexpected _ _ := trivial
  block _ _ := trivial
  target _ := trivial
  literal _ _ _ := trivial

lemma forall₂_mark {ts us : List Located} (h : ts.map Located.mark = us.map Located.mark) :
    List.Forall₂ (fun t u => t.mark = u.mark) ts us := by
  refine List.forall₂_map_left_iff.1 (List.forall₂_map_right_iff.1 ?_)
  rw [h]
  exact List.forall₂_same.2 fun _ _ => rfl

end ScriptedNotes.Script
