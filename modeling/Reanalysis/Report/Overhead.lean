import Reanalysis.Clock.Instant
import Reanalysis.Run.Basic

/-!
# Overhead

The time that an engine takes on an empty program, by mode. It is taken off measured times, so that
runs are compared by the work on the program alone.
-/

namespace Reanalysis

structure Overhead where
  full : Float
  targeted : Float
  cold : Float
  /-- Samples taken in each mode. -/
  samples : Nat
  measuredAt : Instant

namespace Overhead

/-- Fuzzing runs for a given time and has no overhead. -/
def ofMode (o : Overhead) : Mode → Float
  | .full => o.full
  | .targeted => o.targeted
  | .cold => o.cold
  | .fuzz => 0.0

def adjust (o : Overhead) (mode : Mode) (seconds : Float) : Float :=
  Run.atLeastZero (seconds - o.ofMode mode)

def toJson (o : Overhead) : Json.Value :=
  .object [("full", .float o.full), ("targeted", .float o.targeted), ("cold", .float o.cold),
    ("samples", .nat o.samples), ("measured_at", o.measuredAt.toJson)]

structure Draft where
  full : Option Float := none
  targeted : Option Float := none
  cold : Option Float := none
  samples : Option Nat := none
  measuredAt : Option Instant := none

def fields : List (Json.Member Draft) :=
  [.required "full" Draft.full (fun d x => { d with full := some x }) Json.float,
   .required "targeted" Draft.targeted (fun d x => { d with targeted := some x }) Json.float,
   .required "cold" Draft.cold (fun d x => { d with cold := some x }) Json.float,
   .required "samples" Draft.samples (fun d x => { d with samples := some x }) Json.nat64,
   .required "measured_at" Draft.measuredAt (fun d x => { d with measuredAt := some x })
     Instant.reader]

def reader : Json.Reader Overhead :=
  Json.record fields {} fun d => do
    return ⟨← d.full, ← d.targeted, ← d.cold, ← d.samples, ← d.measuredAt⟩

end Overhead

end Reanalysis
