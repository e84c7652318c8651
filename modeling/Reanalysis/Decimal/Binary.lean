/-!
# Binary numbers

A finite floating-point number is a sign, a natural mantissa and a power of two. Everything that
is written about such a number is computed from these three, in exact arithmetic.
-/

namespace Reanalysis.Decimal

/-- `mantissa * 2 ^ exponent`, with the sign kept apart, so that zero has two. `narrow` says that
the next smaller number is only half a unit away. -/
structure Binary where
  negative : Bool
  mantissa : Nat
  exponent : Int
  narrow : Bool

def isNegativeBits (bits : UInt64) : Bool := bits.toNat / 0x8000000000000000 == 1

/-- `none` for infinities and for what is not a number. -/
def Binary.ofBits? (bits : UInt64) : Option Binary :=
  let fraction : Nat := bits.toNat % 0x10000000000000
  let biased : Nat := bits.toNat / 0x10000000000000 % 2048
  if biased == 2047 then none
  else if biased == 0 then some ⟨isNegativeBits bits, fraction, -1074, false⟩
  else some ⟨isNegativeBits bits, 0x10000000000000 + fraction, (biased : Int) - 1075,
    fraction == 0 && 1 < biased⟩

def Binary.ofFloat? (x : Float) : Option Binary := Binary.ofBits? x.toBits

/-- Numerator and denominator of `b ^ e`. -/
def powRatio (b : Nat) (e : Int) : Nat × Nat :=
  if 0 ≤ e then (Nat.pow b e.toNat, 1) else (1, Nat.pow b (-e).toNat)

def Binary.ratio (x : Binary) : Nat × Nat :=
  let (p, q) := powRatio 2 x.exponent
  (x.mantissa * p, q)

/-- Where the exact half goes. -/
inductive Tie where
  | up
  | even

def roundRatio (tie : Tie) (num den : Nat) : Nat :=
  let low := num / den
  let rest := 2 * (num % den)
  if rest < den then low
  else if den < rest then low + 1
  else match tie with
    | .up => low + 1
    | .even => if low % 2 == 0 then low else low + 1

theorem roundRatio_le (tie : Tie) (num den : Nat) : roundRatio tie num den ≤ num / den + 1 := by
  unfold roundRatio
  cases tie <;> dsimp only <;> split <;> (try split) <;> (try split) <;> omega

end Reanalysis.Decimal
