/-!
Cutting and replacing in a text: the first place of a pattern, the pieces between the line feeds,
and the replacement of one or of every occurrence.
-/

namespace ScriptedNotes.Text

/-- What follows `pattern` at the beginning of a text. -/
def after? : List Char → List Char → Option (List Char)
  | [], s => some s
  | _ :: _, [] => none
  | p :: pattern, c :: s => if p = c then after? pattern s else none

theorem after?_eq_some_iff {pattern s rest : List Char} :
    after? pattern s = some rest ↔ s = pattern ++ rest := by
  induction pattern generalizing s with
  | nil => simp [after?, eq_comm]
  | cons p pattern ih =>
    cases s with
    | nil => simp [after?]
    | cons c s =>
      by_cases h : p = c
      · subst h; simp [after?, ih]
      · simp [after?, h, Ne.symm h]

/-- The text before and the text behind the first occurrence of `pattern`. -/
def cut (pattern : List Char) : List Char → Option (List Char × List Char)
  | [] => if pattern.isEmpty then some ([], []) else none
  | c :: s =>
    match after? pattern (c :: s) with
    | some rest => some ([], rest)
    | none => (cut pattern s).map fun (before, rest) => (c :: before, rest)

theorem cut_eq_some {pattern s before rest : List Char}
    (h : cut pattern s = some (before, rest)) : s = before ++ pattern ++ rest := by
  induction s generalizing before rest with
  | nil =>
    simp only [cut] at h
    split at h
    · next e => simp_all
    · simp at h
  | cons c s ih =>
    simp only [cut] at h
    split at h
    · next r hr =>
      obtain ⟨rfl, rfl⟩ : before = [] ∧ rest = r := by simpa [eq_comm] using h
      simpa using after?_eq_some_iff.1 hr
    · obtain ⟨⟨b, r⟩, hb, e⟩ := Option.map_eq_some_iff.1 h
      obtain ⟨rfl, rfl⟩ : c :: b = before ∧ r = rest := by simpa using e
      simp [ih hb]

theorem length_cut {pattern s before rest : List Char} (h : cut pattern s = some (before, rest)) :
    rest.length ≤ s.length := by
  rw [cut_eq_some h, List.length_append]
  omega

/-- Whether `pattern` occurs. -/
def contains (pattern s : List Char) : Bool :=
  (cut pattern s).isSome

/-- The text with the first occurrence of `pattern` replaced. -/
def replaceFirst (pattern replacement s : List Char) : List Char :=
  match cut pattern s with
  | some (before, rest) => before ++ replacement ++ rest
  | none => s

/-- The text with each carriage return before a line feed left out. -/
def unixLines : List Char → List Char
  | '\r' :: '\n' :: s => '\n' :: unixLines s
  | c :: s => c :: unixLines s
  | [] => []

/-- The pieces between the line feeds; a text without one is a single piece. -/
def pieces (s : List Char) : List (List Char) :=
  s.splitOn '\n'

/-- A line without the carriage return that ends it. -/
def dropReturn (s : List Char) : List Char :=
  if s.getLast? = some '\r' then s.dropLast else s

/-- Drops the carriage return of every line but the last, and the last when it is empty. -/
def closeLines : List (List Char) → List (List Char)
  | [] => []
  | [last] => if last.isEmpty then [] else [last]
  | line :: rest => dropReturn line :: closeLines rest

/-- The lines of a text: a line feed, with a carriage return before it, ends a line, and nothing
behind the last of them is no line. -/
def lines (s : List Char) : List (List Char) :=
  closeLines (pieces s)

end ScriptedNotes.Text
