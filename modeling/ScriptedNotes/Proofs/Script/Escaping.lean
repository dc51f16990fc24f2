import ScriptedNotes.Proofs.Script.Lexeme
import ScriptedNotes.Proofs.Script.Printing
import ScriptedNotes.Script.Literal

/-!
Texts inside string literals. `escaped` writes a text so that a literal holds it: no character of it
closes the literal (`Quotable`), and without its escapes it is the text again (`unescape_escaped`).
-/

namespace ScriptedNotes.Script

open Text

/-! ### Escaping -/

/-- A character as it is written in a literal. Where code may stand in braces, a brace that opens is
escaped as well. -/
def escapedChar (braces : Bool) (c : Char) : List Char :=
  if c = '\\' ∨ c = '"' ∨ (braces = true ∧ c = '{') then ['\\', c]
  else if c = '\n' then ['\\', 'n']
  else [c]

/-- A text as it is written in a literal. -/
def escaped (braces : Bool) (s : List Char) : List Char :=
  s.flatMap (escapedChar braces)

/-- Printed literals, which no code stands in, are escaped in this way. -/
lemma escape_eq_escaped (s : List Char) : escape s = escaped false s := by
  induction s with
  | nil => rfl
  | cons c s ih =>
    rw [escape, ih, escaped, escaped, List.flatMap_cons, escapedChar]
    simp only [Bool.false_eq_true, false_and, or_false]
    split_ifs <;> rfl

section

variable {braces : Bool}

lemma unescape_escapedChar (c : Char) (rest : List Char) :
    unescape (escapedChar braces c ++ rest) = c :: unescape rest := by
  unfold escapedChar
  split_ifs with hmarked hfeed
  · rcases hmarked with rfl | rfl | ⟨-, rfl⟩ <;> simp [unescape]
  · simp [hfeed, unescape]
  · rw [not_or] at hmarked
    rw [List.singleton_append, unescape]
    all_goals simp [hmarked.1]

/-- **Escapes say what was escaped.** -/
theorem unescape_escaped (s : List Char) : unescape (escaped braces s) = s := by
  induction s with
  | nil => simp [escaped, unescape]
  | cons c s ih => rw [escaped, List.flatMap_cons, unescape_escapedChar, ← escaped, ih]

/-- Escaping adds backslashes, and writes a line feed as a letter. -/
lemma mem_of_mem_escaped {s : List Char} {c : Char} (h : c ∈ escaped braces s) :
    (c ∈ s ∧ c ≠ '\n') ∨ c = '\\' ∨ c = 'n' := by
  obtain ⟨d, hd, hc⟩ := List.mem_flatMap.1 h
  unfold escapedChar at hc
  split_ifs at hc with hmarked hfeed
  · obtain rfl | rfl : c = '\\' ∨ c = d := by simpa using hc
    · exact .inr (.inl rfl)
    · refine .inl ⟨hd, ?_⟩
      rintro rfl
      simp at hmarked
  · exact .inr (by simpa using hc)
  · obtain rfl := List.mem_singleton.1 hc
    exact .inl ⟨hd, hfeed⟩

lemma lineFeed_not_mem_escaped (s : List Char) : '\n' ∉ escaped braces s := fun hmem =>
  (mem_of_mem_escaped hmem).elim (fun h => h.2 rfl) (by decide)

end

/-! ### Inside quotes -/

/-- A literal with something between its quotes. -/
def quoted (s : List Char) : List Char :=
  '"' :: (s ++ ['"'])

/-- Whether a text in double quotes neither closes them nor is cut by the end of a line. -/
def Quotable (s : List Char) : Prop :=
  ∀ rest, stringRest '"' (s ++ rest) =
    (stringRest '"' rest).map fun (raw, behind) => (s ++ raw, behind)

namespace Quotable

variable {s t : List Char} {c : Char}

lemma nil : Quotable [] := fun rest => by simp

lemma append (hs : Quotable s) (ht : Quotable t) : Quotable (s ++ t) := by
  intro rest
  rw [List.append_assoc, hs, ht, Option.map_map]
  congr 1
  funext found
  exact Prod.ext (List.append_assoc s t found.1).symm rfl

lemma flatMap {α : Type} {f : α → List Char} :
    ∀ {xs : List α}, (∀ x ∈ xs, Quotable (f x)) → Quotable (xs.flatMap f)
  | [], _ => nil
  | x :: xs, h => by
    obtain ⟨hx, hxs⟩ := List.forall_mem_cons.1 h
    exact hx.append (flatMap hxs)

lemma plain (hslash : c ≠ '\\') (hquote : c ≠ '"') (hfeed : c ≠ '\n') : Quotable [c] := by
  intro rest
  rw [List.singleton_append, stringRest_cons hslash, if_neg hquote, if_neg hfeed]
  rfl

lemma backslash (hfeed : c ≠ '\n') : Quotable ['\\', c] := by
  intro rest
  simp [stringRest, hfeed]

lemma escaped (braces : Bool) (s : List Char) : Quotable (escaped braces s) := by
  refine flatMap fun c _ => ?_
  unfold escapedChar
  split_ifs with hmarked hfeed
  · refine backslash ?_
    rintro rfl
    simp at hmarked
  · exact backslash (by decide)
  · rw [not_or, not_or] at hmarked
    exact plain hmarked.1 hmarked.2.1 hfeed

/-- Such a text alone does not close the quotes. -/
lemma unclosed (h : Quotable s) : stringRest '"' s = none := by
  have hempty := h []
  rwa [List.append_nil, stringRest] at hempty

/-- A literal is one token, and the whole source. -/
lemma tokenize (h : Quotable s) : ∃ stop,
    tokenize (quoted s) = .ok [⟨.string (.ofList s), 0, stop, 1⟩] := by
  have hrest : stringRest '"' (s ++ ['"']) = some (s, []) := by
    rw [h, stringRest_cons (by decide), if_pos rfl]
    simp
  have hlexeme : lexeme? (quoted s) = some (.token (.string (.ofList s)), []) := by
    have hcomment : opensComment ('"' :: (s ++ ['"'])) = false := by cases s <;> rfl
    rw [quoted, lexeme?_cons hcomment]
    show (stringRest '"' (s ++ ['"'])).map _ = _
    rw [hrest]
    rfl
  refine ⟨0 + byteSize (quoted s), ?_⟩
  rw [Script.tokenize, tokenizeFrom_token hlexeme (List.append_nil _).symm, tokenizeFrom]
  rfl

end Quotable

/-! ### Braces -/

lemma segments_brace (rest : List Char) :
    segments ('{' :: rest) =
      match cut ['}'] rest with
      | none => [.text ('{' :: rest)]
      | some (inside, rest') =>
        if inside.contains '{' then [.nested]
        else if allBlank inside then .text ['{', '}'] :: segments rest'
        else .code inside :: segments rest' := by
  rw [segments]
  split <;> simp_all

end ScriptedNotes.Script
