import ScriptedNotes.Number.Shortest

/-!
Reading decimals: the value of a run of digits, and the float nearest to a decimal.
-/

namespace ScriptedNotes.Number

/-- The number that a run of digits writes. -/
def digitsValue (digits : List Char) : Nat :=
  digits.foldl (fun n c => 10 * n + (c.toNat - 48)) 0

/-- The nearest float of `digits · 10 ^ exponent`. -/
def nearest (negative : Bool) (digits : Nat) (exponent : Int) : Float :=
  let first := (digitCount digits : Int) + exponent
  let size : Float :=
    if digits = 0 ∨ first < -400 then 0
    else if 400 < first then 1.0 / 0.0
    else if exponent < 0 then .ofScientific digits true (-exponent).toNat
    else .ofScientific digits false exponent.toNat
  if negative then -size else size

end ScriptedNotes.Number
