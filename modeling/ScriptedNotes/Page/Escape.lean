/-!
Literal text in a page: the five characters that mean something in the markup are written as
entities.
-/

namespace ScriptedNotes.Page

/-- A character as it stands in literal text. -/
def escapeChar : Char → List Char
  | '&' => ['&', 'a', 'm', 'p', ';']
  | '<' => ['&', 'l', 't', ';']
  | '>' => ['&', 'g', 't', ';']
  | '"' => ['&', 'q', 'u', 'o', 't', ';']
  | '\'' => ['&', '#', '0', '3', '9', ';']
  | c => [c]

/-- A text as it stands in a page. -/
def escape (s : List Char) : List Char :=
  s.flatMap escapeChar

end ScriptedNotes.Page
