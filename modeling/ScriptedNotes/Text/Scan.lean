/-!
Scanning a text with a pattern, from left to right and without overlaps. The outcome is the text cut
into plain characters and hits; put together again the pieces are the text.
-/

namespace ScriptedNotes.Text

/-- What a pattern reads off the beginning of a text, and the text behind it. -/
abbrev Pattern (α : Type) := List Char → Option (α × List Char)

/-- A character between the hits, or a hit with the text it covers and what it read. -/
inductive Piece (α : Type) where
  | plain (c : Char)
  | hit (lexeme : List Char) (found : α)

variable {α β : Type}

def Piece.text : Piece α → List Char
  | .plain c => [c]
  | .hit lexeme _ => lexeme

def Piece.found? : Piece α → Option α
  | .plain _ => none
  | .hit _ found => some found

/-- The pieces of a text. A pattern has to take at least one character. -/
def scan (p : Pattern α) (s : List Char) : List (Piece α) :=
  match s with
  | [] => []
  | c :: rest =>
    match p (c :: rest) with
    | some (found, after) =>
      if after.length < (c :: rest).length then
        .hit ((c :: rest).take ((c :: rest).length - after.length)) found :: scan p after
      else .plain c :: scan p rest
    | none => .plain c :: scan p rest
termination_by s.length
decreasing_by all_goals simp only [List.length_cons] at *; omega

/-- What the hits read, in order. -/
def finds (p : Pattern α) (s : List Char) : List α :=
  (scan p s).filterMap Piece.found?

/-- The text with each hit replaced. -/
def replaceHits (p : Pattern α) (f : α → List Char) (s : List Char) : List Char :=
  (scan p s).flatMap fun
    | .plain c => [c]
    | .hit _ found => f found

/-- Replaces the hits from left to right while a state goes along. -/
def replaceWith (f : β → List Char → α → List Char × β) : β → List (Piece α) → List Char × β
  | state, [] => ([], state)
  | state, .plain c :: rest =>
    let (text, state) := replaceWith f state rest
    (c :: text, state)
  | state, .hit lexeme found :: rest =>
    let (here, state) := f state lexeme found
    let (text, state) := replaceWith f state rest
    (here ++ text, state)

end ScriptedNotes.Text
