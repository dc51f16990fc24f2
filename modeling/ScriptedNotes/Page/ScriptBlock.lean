import ScriptedNotes.Page.Block
import ScriptedNotes.Page.Vault
import ScriptedNotes.Script.Compile

/-!
The scripts of a note. A script stands in a fence with the tag `automation`, or between lines of
three colons; the blocks of a note are numbered from zero.
-/

namespace ScriptedNotes.Page

open Text Script

/-- The three colons around a script. -/
def colonMark : List Char := [':', ':', ':']

/-- A block behind its mark. The source begins behind the last blank line after the tag from which
a closing mark can be reached, and ends before the first of those. -/
def scriptBetween (mark : List Char) : Pattern (List Char) := fun s => do
  (behindBlankLines (← after? (mark ++ scriptTag) s)).findSome? (cut ('\n' :: mark))

/-- The source of a block of either kind. -/
def scriptPattern : Pattern (List Char) := fun s =>
  scriptBetween fenceMark s <|> scriptBetween colonMark s

/-- A script in a note. -/
structure ScriptBlock where
  number : Nat
  /-- The source without blanks around it. -/
  source : List Char
  compiled : Except SyntaxError Compiled

namespace ScriptBlock

def ofSource (number : Nat) (source : List Char) : ScriptBlock :=
  ⟨number, trim source, compile (trim source)⟩

def id (b : ScriptBlock) : String :=
  "automation-" ++ toString b.number

end ScriptBlock

/-- The scripts of a note, in order. -/
def scriptBlocks (text : List Char) : List ScriptBlock :=
  ((finds scriptPattern text).zipIdx).map fun (source, n) => .ofSource n source

/-- Replaces the scripts of a note while a state goes along, and lists them. -/
def replaceScripts {β : Type} (f : β → ScriptBlock → List Char × β) (state : β)
    (text : List Char) : List Char × List ScriptBlock × β :=
  let step := fun (blocks, state) (_ : List Char) source =>
    let block := ScriptBlock.ofSource (List.length blocks) source
    let (html, state) := f state block
    (html, (blocks ++ [block], state))
  let (text, blocks, state) := replaceWith step ([], state) (scan scriptPattern text)
  (text, blocks, state)

/-- The text behind a mark that follows a line feed and ends its line. -/
def behindClosing? (s : List Char) : Option (List Char) :=
  (after? ('\n' :: fenceMark) s <|> after? ('\n' :: colonMark) s).filter fun rest =>
    rest.head?.all (· == '\n')

/-- The text behind the first mark that follows a line feed and ends its line. -/
def behindFirstClosing? : List Char → Option (List Char)
  | [] => none
  | c :: s => behindClosing? (c :: s) <|> behindFirstClosing? s

/-- A script as the preview sees it: the tag ends its line, and so does the closing mark. -/
def strippedPattern : Pattern Unit := fun s => do
  let rest ← after? (fenceMark ++ scriptTag ++ ['\n']) s <|>
    after? (colonMark ++ scriptTag ++ ['\n']) s
  return ((), ← behindFirstClosing? rest)

/-- A note without its scripts. -/
def stripScripts (text : List Char) : List Char :=
  replaceHits strippedPattern (fun _ => []) text

end ScriptedNotes.Page
