import ScriptedNotes.Text.Search

/-!
Taking line comments out of a source before its dialect is chosen. Two slashes begin a comment
except inside a string literal; a literal that is not closed ends with its line.
-/

namespace ScriptedNotes.Script

open Text

/-- Where a scan of a line stands. -/
inductive Scanning where
  | code
  /-- Inside a literal that ends with the quote. -/
  | literal (quote : Char)
  /-- Behind a backslash in such a literal. -/
  | escaped (quote : Char)

/-- The state behind a character. -/
def Scanning.next : Scanning → Char → Scanning
  | .code, c => if c = '"' ∨ c = '\'' then .literal c else .code
  | .literal quote, c =>
    if c = '\\' then .escaped quote else if c = quote then .code else .literal quote
  | .escaped quote, _ => .literal quote

/-- A line up to its comment. -/
def stripLine (state : Scanning) : List Char → List Char
  | [] => []
  | c :: s =>
    match state, c, s with
    | .code, '/', '/' :: _ => []
    | _, _, _ => c :: stripLine (state.next c) s

/-- A source without its comments. -/
def stripComments (source : List Char) : List Char :=
  ['\n'].intercalate ((lines source).map (stripLine .code))

end ScriptedNotes.Script
