import Reanalysis.Harness.Workflow
import Reanalysis.Report.Summary
import Reanalysis.Store.Overhead

/-!
# Calibration

The engine is run on an empty program several times in each mode, and the median of the times is
its overhead. Nothing is stored unless there is a median for every mode.
-/

namespace Reanalysis.Harness

open Files (Location)
open HarnessAction

variable {σ : Type}

def writeScratch (paths : List Location) : HarnessAction σ Unit :=
  paths.forM fun path => do
    makeDirectories path (Files.directoryOf path)
    change path (·.write path [])

/-- The times of the runs that came to an end by themselves. -/
def sampleTimes (run : Runner σ) (command : Command) : Nat → StateM (World σ) (List Float)
  | 0 => return []
  | n + 1 => do
    let outcome ← run command
    let rest ← sampleTimes run command n
    match outcome.exit with
    | .exited _ => return outcome.elapsed.toSeconds :: rest
    | _ => return rest

def median (run : Runner σ) (samples : Nat) (mode : Mode) (command : Command) :
    HarnessAction σ Float := do
  let times ← sampleTimes run command samples
  match Summary.middle? (times.mergeSort floatLe) with
  | some x => return x
  | none => throw (.calibration mode)

def measure (h : Harness) (run : Runner σ) (scratch : Location) : HarnessAction σ Overhead := do
  let program := Files.join scratch "empty.jse.js"
  let cache := Files.join scratch "cache"
  let diff := Files.join scratch "empty.diff"
  writeScratch [program, cache, diff]
  let c := h.config
  let fs ← files
  let full ← ofCommand (Command.full fs c.engine.full program false c.fullTimeout)
  let targeted ← ofCommand (Command.targeted fs c.engine.targeted cache diff c.targetedTimeout)
  let cold ← ofCommand (Command.cold fs c.engine.full program c.targetedTimeout)
  let fullTime ← median run c.calibrationSamples .full full
  let targetedTime ← median run c.calibrationSamples .targeted targeted
  let coldTime ← median run c.calibrationSamples .cold cold
  let overhead : Overhead := ⟨fullTime, targetedTime, coldTime, c.calibrationSamples, h.now⟩
  ofStore (overhead.save (c.logPath overheadFile))
  return overhead

/-- The scratch directory is gone afterwards in any case. -/
def calibrate (h : Harness) (run : Runner σ) (scratch : Location) : HarnessAction σ Overhead :=
  tryFinally (h.measure run scratch)
    (modify fun w => { w with files := w.files.removeAll scratch })

end Reanalysis.Harness
