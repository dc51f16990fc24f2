import ScriptedNotes.Text.Blank
import ScriptedNotes.Text.Lower
import ScriptedNotes.Text.Scan
import ScriptedNotes.Text.Search
import ScriptedNotes.Page.Escape

/-!
The vault of one page. Code fences, and fragments that are finished, are taken out of the text
before its blocks are laid out, and leave a placeholder behind; at the end each placeholder gives
way to what it stands for. So no rule of the page sees the inside of a fence.
-/

namespace ScriptedNotes.Page

open Text

/-- The name of a language as a page writes it: lower case, common short forms spelled out. -/
def languageName? (tag : List Char) : Option (List Char) :=
  let name := String.ofList (lower (trim tag))
  if name = "" then none
  else some <| String.toList <|
    if name = "js" then "javascript"
    else if name = "py" then "python"
    else if name = "md" then "markdown"
    else if name = "sh" ∨ name = "shell" then "bash"
    else if name = "html" then "xml"
    else if name = "yml" then "yaml"
    else if name = "rb" then "ruby"
    else name

/-- The three backticks around a fence. -/
def fenceMark : List Char := ['`', '`', '`']

/-- The tag of the fences that hold a script. -/
def scriptTag : List Char := "automation".toList

/-- A fence: the tag behind the first mark, and all between the line of the tag and the next
mark. -/
def fencePattern : Pattern (List Char × List Char) := fun s => do
  let s ← after? fenceMark s
  let '\n' :: rest := s.dropWhile isWord | none
  let (body, rest) ← cut fenceMark rest
  return ((s.takeWhile isWord, body), rest)

/-- A fenced piece of code. -/
structure CodeFence where
  code : List Char
  language : Option (List Char)

/-- The code without the line feed before the closing mark. -/
def CodeFence.ofMatch (tag body : List Char) : CodeFence where
  code := if body.getLast? = some '\n' then body.dropLast else body
  language := languageName? tag

def CodeFence.html (fence : CodeFence) : List Char :=
  let opening := match fence.language with
    | some language =>
      "<pre><code class=\"language-".toList ++ escape language ++ "\">".toList
    | none => "<pre><code>".toList
  opening ++ escape fence.code ++ "</code></pre>".toList

/-- What a placeholder stands for. -/
inductive Vaulted where
  | fence (f : CodeFence)
  | fragment (html : List Char)

def Vaulted.html : Vaulted → List Char
  | .fence f => f.html
  | .fragment html => html

def Vaulted.kind : Vaulted → List Char
  | .fence _ => "fence".toList
  | .fragment _ => "fragment".toList

/-- The placeholder of the entry of a kind with a number. It begins with a character of private
use. -/
def placeholder (kind : List Char) (n : Nat) : List Char :=
  "<!--\ue000mne-".toList ++ kind ++ '-' :: Nat.toDigits 10 n ++ "-->".toList

/-- The entries in the order in which they came. -/
structure Vault where
  entries : List Vaulted := []

namespace Vault

def size (v : Vault) : Nat :=
  v.entries.length

/-- Takes an entry in and gives its placeholder. -/
def add (v : Vault) (entry : Vaulted) : List Char × Vault :=
  (placeholder entry.kind v.size, ⟨v.entries ++ [entry]⟩)

/-- Takes in a finished fragment. -/
def stash (v : Vault) (html : List Char) : List Char × Vault :=
  v.add (.fragment html)

/-- Takes in the fences of a text, those of scripts apart. -/
def extract (v : Vault) (text : List Char) : List Char × Vault :=
  replaceWith
    (fun v lexeme (tag, body) =>
      if tag = scriptTag then (lexeme, v) else v.add (.fence (.ofMatch tag body)))
    v (scan fencePattern text)

/-- The entries with their placeholders. -/
def labelled (v : Vault) : List (List Char × Vaulted) :=
  (v.entries.zipIdx).map fun (entry, n) => (placeholder entry.kind n, entry)

/-- Puts each entry in the place where its placeholder stands first. -/
def restore (v : Vault) (text : List Char) : List Char :=
  v.labelled.foldl (fun text (id, entry) => replaceFirst id entry.html text) text

/-- The fences with their placeholders. -/
def fences (v : Vault) : List (List Char × CodeFence) :=
  v.labelled.filterMap fun
    | (id, .fence f) => some (id, f)
    | (_, .fragment _) => none

end Vault

end ScriptedNotes.Page
