import ScriptedNotes.Number.Shortest

/-!
How a float is written down. A `Layout` is the set of decisions of one printed form; `plain` is the
form of number literals and of script output, `data` the form of JSON text.
-/

namespace ScriptedNotes.Number

/-- The decisions of one way to print floats. -/
structure Layout where
  /-- An exact half between two shortest decimals goes up, not to the even one. -/
  tiesUp : Bool
  /-- The exponents of the first digit that are written out with a point; `none` for all. -/
  positional : Option (Int × Int)
  /-- A whole number ends in `.0`. -/
  showsPoint : Bool

/-- No exponent ever, and no point in a whole number. -/
def Layout.plain : Layout := ⟨true, none, false⟩

/-- Always a point or an exponent, the latter below `0.00001` and from `10 ^ 16` on. -/
def Layout.data : Layout := ⟨false, some (-5, 15), true⟩

def zeros (n : Nat) : String :=
  String.ofList (List.replicate n '0')

/-- Puts the point into the digits. -/
def pointed (showsPoint : Bool) (d : Decimal) : String :=
  let digits := Nat.toDigits 10 d.digits
  if 0 ≤ d.exponent then
    String.ofList digits ++ zeros d.exponent.toNat ++ if showsPoint then ".0" else ""
  else
    let places := (-d.exponent).toNat
    if places < digits.length then
      let cut := digits.length - places
      String.ofList (digits.take cut) ++ "." ++ String.ofList (digits.drop cut)
    else "0." ++ zeros (places - digits.length) ++ String.ofList digits

/-- One digit, the point and the others if there are any, and the exponent with its sign. -/
def scientific (d : Decimal) (exponent : Int) : String :=
  let digits := Nat.toDigits 10 d.digits
  let tail := digits.drop 1
  String.ofList (digits.take 1) ++ (if tail.isEmpty then "" else "." ++ String.ofList tail) ++
    (if exponent < 0 then "e-" else "e+") ++ String.ofList (Nat.toDigits 10 exponent.natAbs)

/-- The text of a decimal. -/
def Layout.decimal (l : Layout) (d : Decimal) : String :=
  let first : Int := d.exponent + ((digitCount d.digits : Int) - 1)
  match l.positional with
  | none => pointed l.showsPoint d
  | some (low, high) =>
    if low ≤ first && first ≤ high then pointed l.showsPoint d else scientific d first

/-- The text of a float. -/
def Layout.render (l : Layout) (x : Float) : String :=
  match Reading.ofFloat x with
  | .nan => "NaN"
  | .infinite negative => if negative then "-inf" else "inf"
  | .finite negative m q => (if negative then "-" else "") ++ l.decimal (shortest l.tiesUp m q)

/-- The text of a number literal. -/
def literal (x : Float) : String :=
  Layout.plain.render x

/-- The text of a number in script output: whole numbers below `10 ^ 21` with all their digits,
words for what is not finite, and else the plain form. -/
def display (x : Float) : String :=
  match Reading.ofFloat x with
  | .nan => "NaN"
  | .infinite negative => if negative then "-Infinity" else "Infinity"
  | .finite negative _ _ =>
    match whole? x with
    | some n =>
      if n.natAbs < Nat.pow 10 21 then
        (if negative then "-" else "") ++ String.ofList (Nat.toDigits 10 n.natAbs)
      else literal x
    | none => literal x

end ScriptedNotes.Number
