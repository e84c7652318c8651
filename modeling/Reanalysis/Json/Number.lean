import Reanalysis.Text.Digit

/-!
# JSON numbers

A literal is split into its parts first and valued afterwards. Whole numbers within 64 bits stay
whole. Any other literal becomes a floating-point number in two roundings: the leading digits that
fit 64 bits are converted, and the result is multiplied or divided by a power of ten.
-/

namespace Reanalysis.Json

inductive Number where
  | nat (n : Nat)
  /-- The number `-n`, for a positive `n`. -/
  | negative (n : Nat)
  | float (x : Float)

/-- The digits of a literal, and its exponent when one is written. -/
structure Literal where
  minus : Bool
  whole : List Char
  part : Option (List Char)
  exponent : Option (Bool × List Char)

def wordBound : Nat := 0x10000000000000000

/-- The digits collected so far, and how many whole digits did not fit. -/
structure Significand where
  value : Nat
  dropped : Nat

def Significand.pushWhole (s : Significand) (c : Char) : Significand :=
  let next := s.value * 10 + Text.digitValue c
  if 0 < s.dropped || wordBound ≤ next then ⟨s.value, s.dropped + 1⟩ else ⟨next, 0⟩

/-- Digits after the point are taken as long as they fit; the count is of those taken. -/
def takePart (value : Nat) (taken : Nat) : List Char → Nat × Nat
  | [] => (value, taken)
  | c :: rest =>
    let next := value * 10 + Text.digitValue c
    if wordBound ≤ next then (value, taken) else takePart next (taken + 1) rest

def floatOfNat (n : Nat) : Float := Float.ofScientific n false 0

def powerOfTen (n : Nat) : Float := Float.ofScientific 1 false n

/-- Divides by `10 ^ e` in steps of at most `10 ^ 308`. -/
def divideByPower (x : Float) (e : Nat) : Float :=
  if e ≤ 308 then x / powerOfTen e
  else if x == 0.0 then x
  else divideByPower (x / powerOfTen 308) (e - 308)
termination_by e
decreasing_by omega

/-- `value * 10 ^ e`; `none` when the result is out of range. -/
def scale? (value : Nat) (e : Int) : Option Float :=
  let x := floatOfNat value
  if 0 ≤ e then
    if e ≤ 308 then
      let y := x * powerOfTen e.toNat
      if y.isInf then none else some y
    else if value = 0 then some x
    else none
  else some (divideByPower x (-e).toNat)

def exponentBound : Nat := 0x80000000

def Literal.float? (l : Literal) : Option Float :=
  let s := l.whole.foldl Significand.pushWhole ⟨0, 0⟩
  let (value, taken) := takePart s.value 0 (l.part.getD [])
  let base : Int := (s.dropped : Int) - taken
  let magnitude := match l.exponent with
    | none => scale? value base
    | some (minus, digits) =>
      let e := Text.natOfDigits digits
      if e < exponentBound then scale? value (if minus then base - e else base + e)
      else if value = 0 || minus then some 0.0
      else none
  magnitude.map fun x => if l.minus then -x else x

def Literal.number? (l : Literal) : Option Number :=
  let n := Text.natOfDigits l.whole
  if l.part.isNone && l.exponent.isNone && !l.minus && n < wordBound then some (.nat n)
  else if l.part.isNone && l.exponent.isNone && l.minus && 0 < n && n ≤ 0x8000000000000000 then
    some (.negative n)
  else l.float?.map .float

end Reanalysis.Json
