import ScriptedNotes.Json.Basic
import ScriptedNotes.Number.Hex
import ScriptedNotes.Number.Nearest

/-!
Reading JSON text. The reader is strict: no comments, no comma behind the last item, nothing but
blanks behind the value.
-/

namespace ScriptedNotes.Json

open Number

/-- The four characters that may stand between tokens. -/
def isGap (c : Char) : Bool :=
  c == ' ' || c == '\t' || c == '\n' || c == '\r'

def skipGap (s : List Char) : List Char :=
  s.dropWhile isGap

/-- Four hexadecimal digits. -/
def hexFour? : List Char → Option (Nat × List Char)
  | a :: b :: c :: d :: rest => do
    let n := (← hexDigit? a) * 4096 + (← hexDigit? b) * 256 + (← hexDigit? c) * 16 + (← hexDigit? d)
    return (n, rest)
  | _ => none

def isHighSurrogate (n : Nat) : Bool := 0xd800 ≤ n && n < 0xdc00

def isLowSurrogate (n : Nat) : Bool := 0xdc00 ≤ n && n < 0xe000

/-- The character of an escape of one letter. -/
def simpleEscape? : Char → Option Char
  | '"' => some '"'
  | '\\' => some '\\'
  | '/' => some '/'
  | 'b' => some '\x08'
  | 'f' => some '\x0c'
  | 'n' => some '\n'
  | 'r' => some '\r'
  | 't' => some '\t'
  | _ => none

/-- The character of the digits behind `\u`, which may take a second escape; no character when half
of a pair stands alone. -/
def unicodeEscape? (s : List Char) : Option (Option Char × List Char) := do
  let (n, rest) ← hexFour? s
  if isHighSurrogate n then
    match rest with
    | '\\' :: 'u' :: more =>
      match hexFour? more with
      | some (low, rest') =>
        if isLowSurrogate low then
          return (some (.ofNat (0x10000 + (n - 0xd800) * 0x400 + (low - 0xdc00))), rest')
        else return (none, rest)
      | none => return (none, rest)
    | _ => return (none, rest)
  else if isLowSurrogate n then return (none, rest)
  else return (some (.ofNat n), rest)

/-- The rest of a string behind its opening quote; the inner result is its text, if it has one. -/
def stringBody : Nat → List Char → Option (Option (List Char) × List Char)
  | 0, _ => none
  | _ + 1, [] => none
  | _ + 1, '"' :: s => some (some [], s)
  | fuel + 1, '\\' :: 'u' :: s => do
    let (c, s) ← unicodeEscape? s
    let (text, s) ← stringBody fuel s
    return ((do return (← c) :: (← text)), s)
  | fuel + 1, '\\' :: c :: s => do
    let c ← simpleEscape? c
    let (text, s) ← stringBody fuel s
    return (text.map (c :: ·), s)
  | fuel + 1, c :: s => do
    guard (32 ≤ c.toNat ∧ c ≠ '\\')
    let (text, s) ← stringBody fuel s
    return (text.map (c :: ·), s)

/-- The digits behind a point. -/
def fraction? : List Char → Option (List Char × List Char)
  | '.' :: s =>
    let digits := s.takeWhile Char.isDigit
    if digits.isEmpty then none else some (digits, s.dropWhile Char.isDigit)
  | s => some ([], s)

/-- The number behind an `e`, and whether there is one. -/
def exponent? (s : List Char) : Option (Bool × Int × List Char) :=
  match s with
  | e :: s' =>
    if e == 'e' || e == 'E' then
      let (negative, s') := match s' with
        | '-' :: s'' => (true, s'')
        | '+' :: s'' => (false, s'')
        | _ => (false, s')
      let digits := s'.takeWhile Char.isDigit
      let n : Int := digitsValue digits
      if digits.isEmpty then none
      else some (true, (if negative then -n else n), s'.dropWhile Char.isDigit)
    else some (false, 0, s)
  | [] => some (false, 0, [])

/-- A number without its sign. -/
def numeral? (negative : Bool) (s : List Char) : Option (Json × List Char) := do
  let (units, s) ← match s with
    | '0' :: s' => some (['0'], s')
    | _ => some (s.takeWhile Char.isDigit, s.dropWhile Char.isDigit)
  guard !units.isEmpty
  let (fraction, s') ← fraction? s
  let (scaled, exponent, rest) ← exponent? s'
  let n := digitsValue units
  let exact := fraction.isEmpty && !scaled &&
    if negative then 0 < n && n ≤ Nat.pow 2 63 else n < Nat.pow 2 64
  if exact then return (.whole (if negative then -(n : Int) else n), rest)
  else
    return (.real (nearest negative (digitsValue (units ++ fraction))
      (exponent - fraction.length)), rest)

mutual

/-- The value that a text begins with, and the text behind it. -/
def value? : Nat → List Char → Option (Json × List Char)
  | 0, _ => none
  | fuel + 1, s =>
    match s with
    | 'n' :: 'u' :: 'l' :: 'l' :: rest => some (.null, rest)
    | 't' :: 'r' :: 'u' :: 'e' :: rest => some (.bool true, rest)
    | 'f' :: 'a' :: 'l' :: 's' :: 'e' :: rest => some (.bool false, rest)
    | '"' :: rest => do
      let (text, rest) ← stringBody (rest.length + 1) rest
      return ((text.map fun t => .string (.ofList t)).getD .unreadable, rest)
    | '[' :: rest =>
      match skipGap rest with
      | ']' :: rest => some (.array [], rest)
      | rest => do
        let (items, rest) ← items? fuel rest
        return (.array items, rest)
    | '{' :: rest =>
      match skipGap rest with
      | '}' :: rest => some (.object [], rest)
      | rest => do
        let (fields, rest) ← fields? fuel rest
        return (.object fields, rest)
    | '-' :: rest => numeral? true rest
    | _ => numeral? false s

/-- The items of an array up to its bracket. -/
def items? : Nat → List Char → Option (List Json × List Char)
  | 0, _ => none
  | fuel + 1, s => do
    let (item, s) ← value? fuel (skipGap s)
    match skipGap s with
    | ']' :: rest => return ([item], rest)
    | ',' :: rest =>
      let (items, rest) ← items? fuel rest
      return (item :: items, rest)
    | _ => none

/-- The fields of an object up to its brace. -/
def fields? : Nat → List Char → Option (List (String × Json) × List Char)
  | 0, _ => none
  | fuel + 1, s => do
    let '"' :: s := skipGap s | none
    let (some name, s) ← stringBody (s.length + 1) s | none
    let ':' :: s := skipGap s | none
    let (item, s) ← value? fuel (skipGap s)
    match skipGap s with
    | '}' :: rest => return ([(.ofList name, item)], rest)
    | ',' :: rest =>
      let (fields, rest) ← fields? fuel rest
      return ((.ofList name, item) :: fields, rest)
    | _ => none

end

/-- The value that a whole text writes. -/
def parse? (text : String) : Option Json := do
  let s := text.toList
  let (v, rest) ← value? (2 * s.length + 2) (skipGap s)
  guard (skipGap rest).isEmpty
  return v

end ScriptedNotes.Json
