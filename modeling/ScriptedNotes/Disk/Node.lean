import ScriptedNotes.Keyed

/-!
Files and folders as a tree. A position is the list of the names that lead to a node from the root;
`at?` looks a position up and `update` changes what stands there.
-/

namespace ScriptedNotes

/-- The content of a file: a text, or bytes that are none. -/
inductive Content where
  | text (s : String)
  | binary (bytes : List UInt8)
  deriving DecidableEq, Repr

/-- The content that bytes make up. -/
def Content.ofBytes (bytes : ByteArray) : Content :=
  match String.fromUTF8? bytes with
  | some s => .text s
  | none => .binary bytes.toList

/-- The bytes of a content. -/
def Content.bytes : Content → ByteArray
  | .text s => s.toUTF8
  | .binary bytes => ⟨bytes.toArray⟩

inductive Node where
  | file (content : Content)
  | folder (entries : List (String × Node))
  deriving Inhabited

/-- The names that lead to a node, the outermost first. -/
abbrev Position := List String

namespace Node

def isFolder : Node → Bool
  | .folder _ => true
  | .file _ => false

/-- The node at a position. -/
def at? : Position → Node → Option Node
  | [], n => some n
  | _ :: _, .file _ => none
  | name :: rest, .folder entries => (Keyed.get? name entries).bind (at? rest)

/-- Changes the node at a position, if there is one. -/
def update (f : Node → Node) : Position → Node → Node
  | [], n => f n
  | _ :: _, .file c => .file c
  | name :: rest, .folder entries =>
    match Keyed.get? name entries with
    | some child => .folder (Keyed.put name (update f rest child) entries)
    | none => .folder entries

theorem at?_append (p q : Position) (n : Node) : at? (p ++ q) n = (at? p n).bind (at? q) := by
  induction p generalizing n with
  | nil => rfl
  | cons name rest ih =>
    cases n with
    | file c => rfl
    | folder entries =>
      cases h : Keyed.get? name entries with
      | none => simp [at?, h]
      | some child => simp [at?, h, ih child]

theorem at?_update_self (f : Node → Node) (p : Position) (n : Node) :
    at? p (update f p n) = (at? p n).map f := by
  induction p generalizing n with
  | nil => rfl
  | cons name rest ih =>
    cases n with
    | file c => rfl
    | folder entries =>
      cases h : Keyed.get? name entries with
      | none => simp [update, at?, h]
      | some child => simp [update, at?, h, Keyed.get?_put_self, ih child]

/-- A folder with a node as the entry of a name. -/
def putEntry (name : String) (new : Node) : Node → Node
  | .folder entries => .folder (Keyed.put name new entries)
  | .file c => .file c

/-- A folder without the entry of a name. -/
def eraseEntry (name : String) : Node → Node
  | .folder entries => .folder (Keyed.erase name entries)
  | .file c => .file c

mutual

/-- Takes away the files with a stray name, at every depth, and counts them. -/
def sweep (stray : String → Bool) : Node → Nat × Node
  | .file c => (0, .file c)
  | .folder entries =>
    let (n, entries) := sweepEntries stray entries
    (n, .folder entries)

def sweepEntries (stray : String → Bool) : List (String × Node) → Nat × List (String × Node)
  | [] => (0, [])
  | (name, node) :: rest =>
    let (n, rest) := sweepEntries stray rest
    match node with
    | .file c => if stray name then (n + 1, rest) else (n, (name, .file c) :: rest)
    | .folder entries =>
      let (m, entries) := sweepEntries stray entries
      (m + n, (name, .folder entries) :: rest)

end

end Node

end ScriptedNotes
