import Reanalysis.Decimal.Binary
import Reanalysis.Json.Value

/-!
# Durations

Whole nanoseconds, with less than `2 ^ 64` whole seconds.
-/

namespace Reanalysis

structure Duration where
  nanos : Nat
deriving DecidableEq, Repr

namespace Duration

def perSecond : Nat := 1000000000

def zero : Duration := ⟨0⟩

def longest : Duration := ⟨0x10000000000000000 * perSecond - 1⟩

def ofMillis (n : Nat) : Duration := ⟨n * 1000000⟩

/-- The nearest number of nanoseconds, an exact half going to the even one. What is negative, out
of range or no number gives zero. -/
def ofSeconds (x : Float) : Duration :=
  match Decimal.Binary.ofFloat? x with
  | none => zero
  | some b =>
    let (num, den) := b.ratio
    let nanos := Decimal.roundRatio .even (num * perSecond) den
    if b.negative || longest.nanos < nanos then zero else ⟨nanos⟩

def seconds (d : Duration) : Nat := d.nanos / perSecond

def subsecond (d : Duration) : Nat := d.nanos % perSecond

/-- The seconds and the rest are converted apart and then added. -/
def toSeconds (d : Duration) : Float :=
  Float.ofScientific d.seconds false 0 + Float.ofScientific d.subsecond false 0 / 1000000000.0

def add (a b : Duration) : Duration := ⟨min (a.nanos + b.nanos) longest.nanos⟩

def toJson (d : Duration) : Json.Value := .list [.nat d.seconds, .nat d.subsecond]

end Duration

end Reanalysis
