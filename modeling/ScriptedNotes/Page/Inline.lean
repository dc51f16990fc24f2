import ScriptedNotes.Text.Scan
import ScriptedNotes.Text.Search

/-!
Marks inside a line: bold, italic, code and links. The four kinds are replaced one after another,
bold before italic, and no mark reaches beyond its line.
-/

namespace ScriptedNotes.Page

open Text

/-- What stands before `mark` on the same line, and the text behind it. -/
def upTo? (mark : List Char) (s : List Char) : Option (List Char × List Char) :=
  (cut mark s).filter fun (inside, _) => !inside.contains '\n'

/-- A text between two equal marks. -/
def enclosed (mark : List Char) : Pattern (List Char) := fun s => do
  upTo? mark (← after? mark s)

/-- A text in brackets followed by a target in parentheses. -/
def link : Pattern (List Char × List Char) := fun s => do
  let (label, rest) ← upTo? [']', '('] (← after? ['['] s)
  let (target, rest) ← upTo? [')'] rest
  return ((label, target), rest)

/-- Puts a tag around what stands between two equal marks. -/
def renderEnclosed (mark : List Char) (tag : String) (s : List Char) : List Char :=
  replaceHits (enclosed mark)
    (fun inside => ("<" ++ tag ++ ">").toList ++ inside ++ ("</" ++ tag ++ ">").toList) s

def renderLinks (s : List Char) : List Char :=
  replaceHits link
    (fun (label, target) =>
      "<a href=\"".toList ++ target ++ "\">".toList ++ label ++ "</a>".toList) s

/-- All marks of a text. -/
def renderInline (s : List Char) : List Char :=
  renderLinks (renderEnclosed ['`'] "code" (renderEnclosed ['*'] "em"
    (renderEnclosed ['*', '*'] "strong" s)))

end ScriptedNotes.Page
