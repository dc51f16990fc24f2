/-!
The 64-bit floats as exact numbers. A finite one is `m · 2 ^ q` with a sign; on that form rest the
tests for whole numbers, the remainder, which is exact, and the printing of digits.
-/

namespace ScriptedNotes.Number

/-- What a 64-bit float stands for. -/
inductive Reading where
  | nan
  | infinite (negative : Bool)
  /-- The number `m · 2 ^ q`, with its sign. -/
  | finite (negative : Bool) (m : Nat) (q : Int)
  deriving Repr, DecidableEq

/-- Reads sign, exponent and fraction off the bits. -/
def Reading.ofBits (bits : UInt64) : Reading :=
  let n := bits.toNat
  let negative := n / Nat.pow 2 63 % 2 == 1
  let exponent : Nat := n / Nat.pow 2 52 % Nat.pow 2 11
  let fraction := n % Nat.pow 2 52
  if exponent == 2047 then
    if fraction == 0 then .infinite negative else .nan
  else if exponent == 0 then .finite negative fraction (-1074)
  else .finite negative (Nat.pow 2 52 + fraction) ((exponent : Int) - 1075)

def Reading.ofFloat (x : Float) : Reading :=
  .ofBits x.toBits

/-- The float `m · 2 ^ q`, for an `m` below `2 ^ 53` and a `q` from `-1074` on that do not leave the
range. -/
def assemble (negative : Bool) (m : Nat) (q : Int) : Float :=
  let signBit := if negative then Nat.pow 2 63 else 0
  if m == 0 then .ofBits (.ofNat signBit)
  else
    let shift := min (52 - m.log2) (q + 1074).toNat
    let m := m * Nat.pow 2 shift
    let exponent := if m < Nat.pow 2 52 then 0 else (q - shift + 1075).toNat
    .ofBits (.ofNat (signBit + exponent * Nat.pow 2 52 + m % Nat.pow 2 52))

/-- The whole number that a float is, if it is one. -/
def whole? (x : Float) : Option Int :=
  match Reading.ofFloat x with
  | .finite negative m q =>
    let size : Option Nat :=
      if 0 ≤ q then some (m * Nat.pow 2 q.toNat)
      else if m % Nat.pow 2 (-q).toNat == 0 then some (m / Nat.pow 2 (-q).toNat)
      else none
    size.map fun n => if negative then -(n : Int) else n
  | _ => none

/-- The whole part of a positive finite float, and `0` for all else. -/
def floorNat (x : Float) : Nat :=
  match Reading.ofFloat x with
  | .finite false m q => if 0 ≤ q then m * Nat.pow 2 q.toNat else m / Nat.pow 2 (-q).toNat
  | _ => 0

/-- What is left of `x` when a whole multiple of `y` is taken off toward zero; it has the sign of
`x`. No rounding takes place. -/
def remainder (x y : Float) : Float :=
  match Reading.ofFloat x, Reading.ofFloat y with
  | .finite negative m q, .finite _ m' q' =>
    if m' == 0 then 0.0 / 0.0
    else
      let low := min q q'
      let rest := (m * Nat.pow 2 (q - low).toNat) % (m' * Nat.pow 2 (q' - low).toNat)
      assemble negative rest low
  | .finite .., .infinite _ => x
  | _, _ => 0.0 / 0.0

end ScriptedNotes.Number
