import ScriptedNotes.Page.Table

/-!
The blocks of a page. Blank lines separate them; a block with pipes is a table, any other is laid
out line by line: headings, list items, quotes, rules and paragraphs.
-/

namespace ScriptedNotes.Page

open Text

/-- Puts `separator` between texts. -/
def join (separator : List Char) (parts : List (List Char)) : List Char :=
  separator.intercalate parts

/-- The texts behind a line feed of the blanks that a text begins with, the shortest first. -/
def behindBlankLines : List Char → List (List Char)
  | [] => []
  | c :: s => if isSpace c then behindBlankLines s ++ (if c = '\n' then [s] else []) else []

/-- Leaves two of any run of line feeds; `run` of them have just gone by. -/
def squeeze : Nat → List Char → List Char
  | _, [] => []
  | run, c :: s =>
    if c = '\n' then if run < 2 then c :: squeeze (run + 1) s else squeeze run s
    else c :: squeeze 0 s

/-- One line feed a line, no run of more than two, and no blank lines in front. -/
def normalize (text : List Char) : List Char :=
  let text := squeeze 0 (unixLines text)
  (behindBlankLines text).head?.getD text

/-- Adds a character to the first of some texts. -/
def pushFront (c : Char) : List (List Char) → List (List Char)
  | [] => [[c]]
  | first :: rest => (c :: first) :: rest

/-- The texts between runs of at least two line feeds; with `inGap` such a run has just begun. -/
def splitBlocksFrom : Bool → List Char → List (List Char)
  | _, [] => [[]]
  | inGap, c :: s =>
    if c = '\n' then
      if inGap then splitBlocksFrom true s
      else
        match s with
        | '\n' :: s => [] :: splitBlocksFrom true s
        | s => pushFront c (splitBlocksFrom false s)
    else pushFront c (splitBlocksFrom false s)

/-- The blocks of a text. -/
def splitBlocks (text : List Char) : List (List Char) :=
  splitBlocksFrom false text

/-- Level and content of a heading: up to six number signs, blanks, and a text of one line. -/
def heading? (s : List Char) : Option (Nat × List Char) :=
  let level := (s.takeWhile (· == '#')).length
  match s.dropWhile (· == '#') with
  | c :: rest =>
    let content := rest.dropWhile isSpace
    if 1 ≤ level ∧ level ≤ 6 ∧ isSpace c ∧ '\n' ∉ content then some (level, trim content) else none
  | [] => none

/-- What follows the mark of an unordered list item. -/
def bulletItem? : List Char → Option (List Char)
  | mark :: c :: rest =>
    if (mark = '*' ∨ mark = '+' ∨ mark = '-') ∧ isSpace c then some (rest.dropWhile isSpace)
    else none
  | _ => none

/-- What follows the number of an ordered list item. -/
def numberedItem? (s : List Char) : Option (List Char) :=
  match s.dropWhile Char.isDigit with
  | '.' :: c :: rest =>
    if (s.takeWhile Char.isDigit).isEmpty ∨ !isSpace c then none
    else some (rest.dropWhile isSpace)
  | _ => none

/-- A line of a quote without its mark. -/
def unquote : List Char → List Char
  | '>' :: c :: rest => if isSpace c then rest else c :: rest
  | ['>'] => []
  | s => s

/-- At least three dashes and nothing else. -/
def isRule (s : List Char) : Bool :=
  3 ≤ s.length && s.all (· == '-')

/-- The lines of a list as items, blank ones left out. -/
def listItems (item? : List Char → Option (List Char)) (s : List Char) : List Char :=
  ((pieces s).filter fun line => !allBlank line).flatMap fun line =>
    "<li>".toList ++ (item? line).getD line ++ "</li>".toList

/-- A text by the first form that fits it. -/
def renderSegment (s : List Char) : List Char :=
  match heading? s with
  | some (level, content) =>
    let tag := 'h' :: Nat.toDigits 10 level
    '<' :: tag ++ '>' :: content ++ '<' :: '/' :: tag ++ ['>']
  | none =>
    if (bulletItem? s).isSome then "<ul>".toList ++ listItems bulletItem? s ++ "</ul>".toList
    else if (numberedItem? s).isSome then
      "<ol>".toList ++ listItems numberedItem? s ++ "</ol>".toList
    else if s.head? = some '>' then
      "<blockquote>".toList ++ join "<br>".toList ((pieces s).map unquote) ++
        "</blockquote>".toList
    else if isRule s then "<hr>".toList
    else if s.head? = some '<' then s
    else "<p>".toList ++ s ++ "</p>".toList

/-- One block. -/
def renderBlock (block : List Char) : List Char :=
  let block := trim block
  if block.isEmpty then []
  else if block.contains '|' && block.contains '\n' then renderTable block
  else if block.contains '\n' then join ['\n'] ((pieces block).map renderSegment)
  else renderSegment block

/-- All blocks of a text. -/
def renderBlocks (text : List Char) : List Char :=
  join ['\n', '\n'] ((splitBlocks (normalize text)).map renderBlock)

end ScriptedNotes.Page
