import ScriptedNotes.Text.Blank
import ScriptedNotes.Text.Search

/-!
Pipe tables. The second line of a table is made of dashes, colons, pipes and blanks and says how the
columns are aligned; the others are rows of cells.
-/

namespace ScriptedNotes.Page

open Text

inductive Alignment where
  | left
  | center
  | right
  deriving DecidableEq, Repr

namespace Alignment

/-- The alignment that a cell such as `:---:` asks for. -/
def ofDelimiter (cell : List Char) : Alignment :=
  let cell := trim cell
  if cell.getLast? = some ':' then
    if cell.head? = some ':' then .center else .right
  else .left

/-- The class of the cells of a column. -/
def className : Alignment → String
  | .left => "text-left"
  | .center => "text-center"
  | .right => "text-right"

end Alignment

/-- A table; columns beyond the alignments are aligned left. -/
structure Table where
  headers : List (List Char)
  alignments : List Alignment
  rows : List (List (List Char))

namespace Table

/-- The cells between the outermost pipes of a row. -/
def cells (row : List Char) : List (List Char) :=
  (((row.splitOn '|').drop 1).dropLast).map trim

/-- Whether a line may stand second in a table: a pipe at either end, and between them only pipes,
dashes, colons and blanks. -/
def isDelimiterRow (row : List Char) : Bool :=
  let inner := ((row.dropWhile isSpace).reverse.dropWhile isSpace).reverse
  inner.head? = some '|' && inner.getLast? = some '|' && 2 ≤ inner.length &&
    inner.all fun c => c == '|' || c == '-' || c == ':' || isSpace c

/-- The alignments that a delimiter row asks for. -/
def alignmentsOf (row : List Char) : List Alignment :=
  ((row.splitOn '|').filter fun cell => !allBlank cell).map .ofDelimiter

/-- Reads a block as a table. -/
def parse? (block : List Char) : Option Table :=
  match pieces (trim block) with
  | header :: delimiter :: rows =>
    if isDelimiterRow delimiter then
      some ⟨cells header, alignmentsOf delimiter, rows.map cells⟩
    else none
  | _ => none

/-- The alignment of a column. -/
def alignment (t : Table) (column : Nat) : Alignment :=
  t.alignments[column]?.getD .left

/-- One row of cells with a tag around each. -/
def rowHtml (t : Table) (tag : String) (row : List (List Char)) : List Char :=
  (row.zipIdx).flatMap fun (cell, column) =>
    ("<" ++ tag ++ " class=\"" ++ (t.alignment column).className ++ "\">").toList ++ cell ++
      ("</" ++ tag ++ ">").toList

def html (t : Table) : List Char :=
  "<div class=\"table-wrapper\"><table><thead><tr>".toList ++ t.rowHtml "th" t.headers ++
    "</tr></thead><tbody>".toList ++
    t.rows.flatMap (fun row => "<tr>".toList ++ t.rowHtml "td" row ++ "</tr>".toList) ++
    "</tbody></table></div>".toList

end Table

/-- A block as a table, or as it is when it is none. -/
def renderTable (block : List Char) : List Char :=
  match Table.parse? block with
  | some table => table.html
  | none => block

end ScriptedNotes.Page
