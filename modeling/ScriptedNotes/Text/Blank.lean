/-!
Blank characters. `isBlank` is the `White_Space` property of Unicode, by which texts are trimmed;
`isSpace` holds of its six members below U+0080 that a layout rule of the markup skips, and `isWord`
of the letters, digits and underscore that make up a tag or a key.
-/

namespace ScriptedNotes.Text

/-- The `White_Space` property. -/
def isBlank (c : Char) : Bool :=
  let n := c.toNat
  (9 ≤ n && n ≤ 13) || n == 0x20 || n == 0x85 || n == 0xa0 || n == 0x1680 ||
    (0x2000 ≤ n && n ≤ 0x200a) || n == 0x2028 || n == 0x2029 || n == 0x202f || n == 0x205f ||
    n == 0x3000

/-- Tab, line feed, vertical tab, form feed, carriage return and the space. -/
def isSpace (c : Char) : Bool :=
  (9 ≤ c.toNat && c.toNat ≤ 13) || c == ' '

/-- A letter of the basic alphabet, a digit or an underscore. -/
def isWord (c : Char) : Bool :=
  c.isAlphanum || c == '_'

theorem isBlank_of_isSpace {c : Char} (h : isSpace c = true) : isBlank c = true := by
  simp only [isSpace, isBlank, Bool.or_eq_true, beq_iff_eq] at h ⊢
  rcases h with h | rfl
  · simp [h]
  · simp

/-- The text without blanks in front. -/
def trimStart (s : List Char) : List Char :=
  s.dropWhile isBlank

/-- The text without blanks behind. -/
def trimEnd (s : List Char) : List Char :=
  (s.reverse.dropWhile isBlank).reverse

/-- The text without blanks on either side. -/
def trim (s : List Char) : List Char :=
  trimEnd (trimStart s)

/-- Whether a text has nothing but blanks. -/
def allBlank (s : List Char) : Bool :=
  s.all isBlank

end ScriptedNotes.Text
