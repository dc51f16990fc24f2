import ScriptedNotes.Number.Hex
import ScriptedNotes.Script.SyntaxError
import ScriptedNotes.Text.Blank
import ScriptedNotes.Text.Search

/-!
What a string literal says. `unescape` resolves the escapes of a plain literal; `segments` cuts a
literal with expressions in braces into text and code.
-/

namespace ScriptedNotes.Script

open Text

/-- The number that hexadecimal digits write; a plus sign may stand before them. -/
def hexValue? (digits : List Char) : Option Nat :=
  let digits := (after? ['+'] digits).getD digits
  if digits.isEmpty then none
  else digits.foldlM (fun n c => (Number.hexDigit? c).map (16 * n + ·)) 0

/-- The character with a number, if there is one. -/
def charOf? (n : Nat) : Option Char :=
  if n.isValidChar then some (.ofNat n) else none

/-- The character that hexadecimal digits in braces write, and the text behind the braces. -/
def bracedChar? (s : List Char) : Option (Char × List Char) := do
  let (digits, rest) ← cut ['}'] (← after? ['{'] s)
  let c ← charOf? (← hexValue? digits)
  return (c, rest)

theorem length_bracedChar? {s rest : List Char} {c : Char} (h : bracedChar? s = some (c, rest)) :
    rest.length < s.length := by
  simp only [bracedChar?, bind, Option.bind_eq_some_iff, pure, Option.some.injEq] at h
  obtain ⟨t, ht, ⟨digits, r⟩, hr, n, hn, c', hc, e⟩ := h
  have hs := after?_eq_some_iff.1 ht
  have hcut := cut_eq_some hr
  simp only [Prod.mk.injEq] at e
  obtain ⟨-, rfl⟩ := e
  subst hs; subst hcut
  simp; omega

/-- The text of a literal. A backslash gives a line feed, a tab, a return, the null character or a
character by its number, and otherwise the character behind it. -/
def unescape (s : List Char) : List Char :=
  match s with
  | [] => []
  | '\\' :: 'n' :: rest => '\n' :: unescape rest
  | '\\' :: 't' :: rest => '\t' :: unescape rest
  | '\\' :: 'r' :: rest => '\r' :: unescape rest
  | '\\' :: '0' :: rest => '\x00' :: unescape rest
  | '\\' :: 'u' :: rest =>
    match _h : bracedChar? rest with
    | some (c, rest') => c :: unescape rest'
    | none => 'u' :: unescape rest
  | '\\' :: c :: rest => c :: unescape rest
  | c :: rest => c :: unescape rest
termination_by s.length
decreasing_by
  all_goals simp only [List.length_cons]
  any_goals omega
  have := length_bracedChar? _h
  omega

/-- A stretch of a literal that may hold expressions. -/
inductive Segment where
  /-- Text, its escapes as written. -/
  | text (raw : List Char)
  /-- The source between two braces. -/
  | code (source : List Char)
  /-- Braces inside braces; what follows is not looked at. -/
  | nested

/-- Cuts a literal at its braces. An escaped brace is text; so are braces around nothing, and an
opening brace that is never closed together with all behind it. -/
def segments (s : List Char) : List Segment :=
  match s with
  | [] => []
  | '\\' :: '{' :: rest => .text "\\u{7b}".toList :: segments rest
  | '\\' :: '}' :: rest => .text "\\u{7d}".toList :: segments rest
  | '\\' :: c :: rest => .text ['\\', c] :: segments rest
  | '{' :: rest =>
    match _h : cut ['}'] rest with
    | none => [.text ('{' :: rest)]
    | some (inside, rest') =>
      if inside.contains '{' then [.nested]
      else if allBlank inside then .text ['{', '}'] :: segments rest'
      else .code inside :: segments rest'
  | c :: rest => .text [c] :: segments rest
termination_by s.length
decreasing_by
  all_goals simp only [List.length_cons]
  any_goals omega
  all_goals
    have := length_cut _h
    omega

end ScriptedNotes.Script
