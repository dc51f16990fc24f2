/-!
Paths as they are written. The slashes cut a path into pieces, and the pieces that say something are
its parts; repeated slashes and inner dots are kept in the text but are no parts. Two paths with the
same parts are the same for every list of paths, while messages show the text.
-/

namespace ScriptedNotes

/-- A path as it is written. -/
structure Path where
  text : String
  deriving DecidableEq, Repr, Inhabited

namespace Path

/-- What a piece of a path says. -/
inductive Part where
  /-- The slash in front of an absolute path. -/
  | root
  /-- A dot in front of a relative path. -/
  | here
  /-- Two dots. -/
  | up
  | name (s : String)
  deriving DecidableEq, Repr

/-- The text between the slashes. -/
def pieces (p : Path) : List (List Char) :=
  p.text.toList.splitOn '/'

/-- The text with slashes between the pieces. -/
def ofPieces (pieces : List (List Char)) : Path :=
  ⟨.ofList (List.intercalate ['/'] pieces)⟩

/-- The part that a piece behind a slash is, if it is one. -/
def innerPart? (piece : List Char) : Option Part :=
  if piece = [] ∨ piece = ['.'] then none
  else if piece = ['.', '.'] then some .up
  else some (.name (.ofList piece))

/-- The parts of a path that does not begin with a slash, by its first piece and the others. -/
def relativeParts (first : List Char) (rest : List (List Char)) : List Part :=
  if first = ['.'] then .here :: rest.filterMap innerPart?
  else (first :: rest).filterMap innerPart?

/-- The parts of a path. -/
def parts (p : Path) : List Part :=
  match p.pieces with
  | [] => []
  | [] :: second :: rest => .root :: (second :: rest).filterMap innerPart?
  | first :: rest => relativeParts first rest

/-- Whether two paths have the same parts. -/
def same (p q : Path) : Bool :=
  p.parts == q.parts

def isAbsolute (p : Path) : Bool :=
  p.text.toList.head? = some '/'

/-- The name that a path ends in. -/
def fileName? (p : Path) : Option String :=
  match p.parts.getLast? with
  | some (.name s) => some s
  | _ => none

/-- The name of the last part, or the whole text of a path that does not end in a name. -/
def shownName (p : Path) : String :=
  p.fileName?.getD p.text

/-- The pieces before the last one that is a part, without those at their end that are none. -/
def dropLastPart? (pieces : List (List Char)) : Option (List (List Char)) :=
  let idle := fun piece : List Char => (innerPart? piece).isNone
  match pieces.reverse.dropWhile idle with
  | [] => none
  | _ :: before => some (before.dropWhile idle).reverse

/-- The path without its last part; the root and the empty path have none. -/
def parent? (p : Path) : Option Path :=
  match p.pieces with
  | [] => none
  | first :: rest =>
    match dropLastPart? rest with
    | some [] => some (if first = [] then ⟨"/"⟩ else ofPieces [first])
    | some (second :: before) => some (ofPieces (first :: second :: before))
    | none => if first = [] then none else some ⟨""⟩

/-- The path and all its parents, the longest first; the list ends before the empty path, the root
and the paths without a parent. -/
def ancestors (p : Path) : List Path :=
  go (p.text.length + 1) p
where
  go : Nat → Path → List Path
    | 0, _ => []
    | n + 1, p =>
      match p.parent? with
      | some parent => p :: go n parent
      | none => []

/-- The path `next` as seen from the folder `p`: an absolute one stands for itself. -/
def join (p next : Path) : Path :=
  if next.isAbsolute then next
  else if p.text.isEmpty ∨ p.text.toList.getLast? = some '/' then ⟨p.text ++ next.text⟩
  else ⟨p.text ++ "/" ++ next.text⟩

/-- The path with another name at its end. -/
def withFileName (p : Path) (name : String) : Path :=
  if p.fileName?.isSome then (p.parent?.getD p).join ⟨name⟩ else p.join ⟨name⟩

/-- A name before and behind its last point. A name that has no point, or only one in front, is
whole. -/
def splitName (name : String) : String × Option String :=
  let backwards := name.toList.reverse
  match backwards.dropWhile (· ≠ '.') with
  | _ :: c :: before =>
    (.ofList (c :: before).reverse, some (.ofList (backwards.takeWhile (· ≠ '.')).reverse))
  | _ => (name, none)

/-- The name that a path ends in, without its extension. -/
def stem? (p : Path) : Option String :=
  p.fileName?.map fun name => (splitName name).1

end Path

end ScriptedNotes
