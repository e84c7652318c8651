import Reanalysis.Decimal.Binary

/-!
# The fewest digits that read back

Among the decimals that round to a given binary number, the ones with the fewest digits, and of
these the nearest. For each number of digits only the two neighbours of the value on that decimal
grid have to be looked at.
-/

namespace Reanalysis.Decimal

/-- `digits * 10 ^ scale`. -/
structure Digits where
  digits : Nat
  scale : Int

def digitCount (n : Nat) : Nat := if n = 0 then 0 else digitCount (n / 10) + 1

/-- The number `k` with `10 ^ (k - 1) ≤ num / den < 10 ^ k`. -/
def magnitude (num den : Nat) : Int :=
  if den ≤ num then (digitCount (num / den) : Int) else 1 - (digitCount ((den - 1) / num) : Int)

/-- Whether `c * 10 ^ scale` rounds to `x`: it lies between the two midpoints next to `x`, which
belong to `x` when the mantissa is even. -/
def Binary.holds (x : Binary) (c : Nat) (scale : Int) : Bool :=
  let (p, q) := powRatio 10 scale
  let (u, v) := powRatio 2 (x.exponent - 2)
  let low := (4 * x.mantissa - (if x.narrow then 1 else 2)) * u * q
  let high := (4 * x.mantissa + 2) * u * q
  let point := c * p * v
  if x.mantissa % 2 == 0 then low ≤ point && point ≤ high else low < point && point < high

/-- The nearest decimal with `count` digits that reads back as `x`. -/
def Binary.withDigits? (x : Binary) (tie : Tie) (count : Nat) : Option Digits :=
  let (num, den) := x.ratio
  let scale := magnitude num den - count
  let (p, q) := powRatio 10 scale
  let low := num * q / (den * p)
  let near := roundRatio tie (num * q) (den * p)
  let far := if near == low then low + 1 else low
  if x.holds near scale then some ⟨near, scale⟩
  else if x.holds far scale then some ⟨far, scale⟩
  else none

/-- The first of `count`, `count + 1`, … digits that suffice, `room` numbers of digits being left
to try. Seventeen digits always suffice. -/
def Binary.shortestFrom (x : Binary) (tie : Tie) : Nat → Nat → Digits
  | 0, count => (x.withDigits? tie count).getD ⟨0, 0⟩
  | room + 1, count => match x.withDigits? tie count with
    | some d => d
    | none => x.shortestFrom tie room (count + 1)

def Digits.stripFrom : Nat → Digits → Digits
  | 0, d => d
  | room + 1, d =>
    if d.digits ≠ 0 && d.digits % 10 == 0 then stripFrom room ⟨d.digits / 10, d.scale + 1⟩ else d

def Binary.shortest (x : Binary) (tie : Tie) : Digits :=
  if x.mantissa = 0 then ⟨0, 0⟩ else Digits.stripFrom 20 (x.shortestFrom tie 16 1)

end Reanalysis.Decimal
