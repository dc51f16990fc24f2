import ScriptedNotes.Proofs.Script.Lockstep

/-!
The two tokens that close a block. The grammar asks of a token whether it closes a block and never
with which of the two, so a brace may stand for the word and the word for a brace, at any places of
a source (`programOf_exchangeClosers`).
-/

namespace ScriptedNotes.Script

/-- The other of the two tokens that close a block. -/
def Token.otherCloser : Token → Token
  | .symbol .closeBrace => .keyword .endKw
  | .keyword .endKw => .symbol .closeBrace
  | t => t

/-- The tokens with the closers in some of the places exchanged for one another. -/
def exchangeClosers (chosen : Nat → Bool) (tokens : List Located) : List Located :=
  tokens.mapIdx fun i t => if chosen i then { t with token := t.token.otherCloser } else t

/-- The same token in the same place, or both close a block there. -/
structure SameButCloser (t u : Located) : Prop where
  line : t.line = u.line
  token : t.token = u.token ∨ t.token.closesBlock = true ∧ u.token.closesBlock = true

lemma sameButCloser_otherCloser (t : Located) :
    SameButCloser { t with token := t.token.otherCloser } t := by
  refine ⟨rfl, ?_⟩
  show t.token.otherCloser = t.token ∨ t.token.otherCloser.closesBlock = true ∧ _
  unfold Token.otherCloser
  split
  · next h => exact .inr ⟨rfl, by rw [h]; rfl⟩
  · next h => exact .inr ⟨rfl, by rw [h]; rfl⟩
  · exact .inl rfl

lemma forall₂_exchangeClosers (chosen : Nat → Bool) (tokens : List Located) :
    List.Forall₂ SameButCloser (exchangeClosers chosen tokens) tokens := by
  induction tokens generalizing chosen with
  | nil => exact .nil
  | cons t tokens ih =>
    unfold exchangeClosers
    rw [List.mapIdx_cons]
    refine .cons ?_ (ih fun i => chosen (i + 1))
    split
    · exact sameButCloser_otherCloser t
    · exact ⟨rfl, .inl rfl⟩

/-- The grammar does not look at which of the two tokens closes a block. -/
lemma faithful_sameButCloser (literal : LiteralReader) :
    Faithful SameButCloser (fun _ _ => True) literal where
  line h := h.line
  token h := h.token
  unexpected _ _ := trivial
  block _ _ := trivial
  target _ := trivial
  literal _ _ _ := trivial

/-- **The word `end` closes a block just as a brace does.** Whatever the tokens, and wherever the
two are exchanged for one another, the tokens are read as a program when they were before, and as
the same one. -/
theorem programOf_exchangeClosers (literal : LiteralReader) (chosen : Nat → Bool)
    (tokens : List Located) (program : Program) :
    programOf literal (exchangeClosers chosen tokens) = .ok program ↔
      programOf literal tokens = .ok program :=
  (sameOutcome_programOf (faithful_sameButCloser literal)
    (forall₂_exchangeClosers chosen tokens)).eq_ok_iff program

/-- Both blocks of `try { } catch { }`, the first closed by the word. -/
example : programOf plainLiteral (exchangeClosers (· == 2)
    ([.keyword .tryKw, .symbol .openBrace, .symbol .closeBrace, .keyword .catchKw,
      .symbol .openBrace, .symbol .closeBrace].map (⟨·, 0, 0, 1⟩))) = .ok [.try [] []] :=
  rfl

end ScriptedNotes.Script
