import Reanalysis.Json.Number
import Reanalysis.Json.Value

/-!
# Summaries of a column

Number, mean, median and range of the finite values among those given. The values are put in order
first, so that the result does not depend on the order they come in.
-/

namespace Reanalysis

/-- The place of a number in the total order of the numbers, with `-0.0` below `0.0`. -/
def orderKey (x : Float) : Int :=
  let bits := x.toBits.toNat
  if bits < 0x8000000000000000 then (bits : Int) else (0x8000000000000000 : Int) - bits - 1

def floatLe (x y : Float) : Bool := orderKey x ≤ orderKey y

/-- Adds from left to right, starting at `-0.0`. -/
def floatSum (xs : List Float) : Float := xs.foldl (· + ·) (-0.0)

structure Summary where
  count : Nat
  mean : Float
  median : Float
  min : Float
  max : Float

namespace Summary

def ascending (xs : List Float) : List Float := (xs.filter Float.isFinite).mergeSort floatLe

/-- The middle of an ascending list; for an even number, the mean of the two in the middle. -/
def middle? (xs : List Float) : Option Float := do
  let high ← xs[xs.length / 2]?
  if xs.length % 2 = 0 then
    let low ← xs[xs.length / 2 - 1]?
    return (low + high) / 2.0
  else return high

/-- `none` when no value is finite. -/
def of? (xs : List Float) : Option Summary := do
  let sorted := ascending xs
  return ⟨sorted.length, floatSum sorted / Json.floatOfNat sorted.length, ← middle? sorted,
    ← sorted.head?, ← sorted.getLast?⟩

def render (s : Summary) : String :=
  s!"n={s.count} mean=" ++ Decimal.fixed 3 s.mean ++ " median=" ++ Decimal.fixed 3 s.median ++
    " min=" ++ Decimal.fixed 3 s.min ++ " max=" ++ Decimal.fixed 3 s.max

def toJson (s : Summary) : Json.Value :=
  .object [("count", .nat s.count), ("mean", .float s.mean), ("median", .float s.median),
    ("min", .float s.min), ("max", .float s.max)]

end Summary

def perSecond (count : Nat) (seconds : Float) : Float :=
  if 0.0 < seconds && seconds.isFinite then Json.floatOfNat count / seconds else 0.0

end Reanalysis
