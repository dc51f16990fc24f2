import ScriptedNotes.Number.Binary64

/-!
The shortest decimal that reads back as a float. Of all decimals nearer to `m · 2 ^ q` than to its
neighbours, those with the fewest digits are taken, and of these the nearest; which of two equally
near ones is for the caller to say.
-/

namespace ScriptedNotes.Number

/-- The number `digits · 10 ^ exponent`. -/
structure Decimal where
  digits : Nat
  exponent : Int
  deriving Repr, DecidableEq

/-- How many digits a whole number has. -/
def digitCount (n : Nat) : Nat :=
  (Nat.toDigits 10 n).length

/-- The place `k` of the leading digit of `num / den`: the value lies in
`[10 ^ (k - 1), 10 ^ k)`. -/
def leadingPlace (num den : Nat) : Int :=
  if den ≤ num then digitCount (num / den)
  else 1 - (digitCount ((den + num - 1) / num - 1) : Int)

/-- Whether `c · unit / 4` reads back as the float `m`, with `4 · value / unit = 4 · m · a / b`. The
lower neighbour of a power of two is half as far away; a point half way to a neighbour reads back
when `m` is even. -/
def readsBack (m : Nat) (edge : Bool) (a b c : Nat) : Bool :=
  let low := (4 * m - if edge then 1 else 2) * a
  let high := (4 * m + 2) * a
  let point := 4 * c * b
  if m % 2 == 0 then low ≤ point && point ≤ high else low < point && point < high

/-- The better of the two points of the grid of `n` digits that enclose the value, if one of them
reads back. -/
def onGrid? (tiesUp : Bool) (m : Nat) (q : Int) (edge : Bool) (k : Int) (n : Nat) :
    Option Decimal :=
  let a := Nat.pow 2 q.toNat * Nat.pow 10 ((n : Int) - k).toNat
  let b := Nat.pow 2 (-q).toNat * Nat.pow 10 (k - (n : Int)).toNat
  let below := m * a / b
  let rest := m * a % b
  let upIsNearer := if 2 * rest == b then tiesUp || below % 2 == 1 else b < 2 * rest
  let hitBelow := readsBack m edge a b below
  let hitAbove := readsBack m edge a b (below + 1)
  let pick := fun c => some ⟨c, k - n⟩
  if hitBelow && hitAbove then pick (if upIsNearer then below + 1 else below)
  else if hitBelow then pick below
  else if hitAbove then pick (below + 1)
  else none

/-- The number without the zeros that end its digits, `fuel` of them at most. -/
def Decimal.strip (d : Decimal) : Nat → Decimal
  | 0 => d
  | fuel + 1 =>
    if d.digits != 0 && d.digits % 10 == 0 then
      Decimal.strip ⟨d.digits / 10, d.exponent + 1⟩ fuel
    else d

/-- The shortest decimal of `m · 2 ^ q`; seventeen digits always suffice. -/
def shortest (tiesUp : Bool) (m : Nat) (q : Int) : Decimal :=
  if m == 0 then ⟨0, 0⟩
  else
    let edge := m == Nat.pow 2 52 && -1074 < q
    let k := leadingPlace (m * Nat.pow 2 q.toNat) (Nat.pow 2 (-q).toNat)
    match (List.range 17).findSome? fun n => onGrid? tiesUp m q edge k (n + 1) with
    | some d => d.strip 20
    | none => ⟨m * Nat.pow 2 q.toNat, 0⟩

end ScriptedNotes.Number
