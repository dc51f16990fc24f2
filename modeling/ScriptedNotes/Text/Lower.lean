import ScriptedNotes.Text.CaseTable

/-!
Lower case of a text. Each character goes to its simple lower case, with two exceptions: a dotted
capital I leaves its dot behind as a combining mark, and a capital sigma at the end of a word
becomes the final form of the small letter.
-/

namespace ScriptedNotes.Text

/-- Whether one of the ranges holds the code point. -/
def inRanges (ranges : List (Nat × Nat)) (c : Char) : Bool :=
  ranges.any fun (first, last) => first ≤ c.toNat && c.toNat ≤ last

/-- Marks, quotes and the like, past which the case of a word is looked for. -/
def ignoresCase (c : Char) : Bool :=
  inRanges CaseTable.ignorable c

def isCased (c : Char) : Bool :=
  inRanges CaseTable.cased c

/-- The simple lower case mapping. -/
def lowerChar (c : Char) : Char :=
  if c.toNat < 0x80 then c.toLower
  else
    let holds := fun (run : Nat × Nat × Nat × Nat) =>
      run.1 ≤ c.toNat && c.toNat ≤ run.2.1 && (c.toNat - run.1) % run.2.2.1 == 0
    match CaseTable.lowerRuns.find? holds with
    | some run => Char.ofNat (run.2.2.2 + (c.toNat - run.1))
    | none => c

/-- Whether a word goes on in this direction: the first character that counts is a cased one. -/
def wordGoesOn (s : List Char) : Bool :=
  match s.dropWhile ignoresCase with
  | c :: _ => isCased c
  | [] => false

/-- The lower case of `rest` behind the characters `before`, which stand in reverse. -/
def lowerAfter (before : List Char) : List Char → List Char
  | [] => []
  | c :: rest =>
    let here :=
      if c = 'Σ' then
        if wordGoesOn before && !wordGoesOn rest then ['ς'] else ['σ']
      else if c = 'İ' then ['i', '\u0307']
      else [lowerChar c]
    here ++ lowerAfter (c :: before) rest

/-- The lower case of a text. -/
def lower (s : List Char) : List Char :=
  lowerAfter [] s

end ScriptedNotes.Text
