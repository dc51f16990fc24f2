import ScriptedNotes.Disk.Effect
import ScriptedNotes.Page.Render
import ScriptedNotes.Text.Blank
import ScriptedNotes.Text.Search

/-!
A note that is being edited: its text, the file that it belongs to, and whether the two differ.
-/

namespace ScriptedNotes

structure Document where
  path : Path
  content : String := ""
  /-- Whether the text has changed since it was read or saved. -/
  modified : Bool := false
  /-- Whether the file has been seen, so that the time of its last change is known. -/
  dated : Bool := false
  deriving DecidableEq, Repr

namespace Document

/-- Reads the note of a file. -/
def read (p : Path) (d : Disk) : Except DiskError Document :=
  match d.readText p with
  | .ok content => .ok { path := p, content, dated := true }
  | .error fault => .error ⟨.readFile p, fault⟩

/-- Writes the text to the file. -/
def write (doc : Document) : DiskWork DiskError Unit :=
  DiskWork.toward (.saveFile doc.path) (DiskWork.change (·.writeText doc.path doc.content))

/-- Writes the text to the file; what comes out knows that the two agree. -/
def save (doc : Document) : DiskWork DiskError Document := do
  doc.write
  return { doc with modified := false, dated := true }

/-- The note with another text. -/
def setContent (doc : Document) (content : String) : Document :=
  if doc.content = content then doc else { doc with content, modified := true }

/-- The first heading of the first level. -/
def heading? (doc : Document) : Option (List Char) :=
  (Text.lines doc.content.toList).findSome? (Text.after? ['#', ' '])

/-- The first heading of the first level, else the name of the file without its extension. -/
def title (doc : Document) : String :=
  let heading := Text.trim (doc.heading?.getD [])
  if heading.isEmpty then doc.path.stem?.getD "Untitled" else .ofList heading

/-- The note as a page. -/
def render (doc : Document) : Page.Rendered :=
  Page.renderNote doc.content.toList

/-- The note as a page without its scripts. -/
def preview (doc : Document) : List Char :=
  Page.preview doc.content.toList

def scripts (doc : Document) : List Page.ScriptBlock :=
  Page.scriptBlocks doc.content.toList

end Document

end ScriptedNotes
