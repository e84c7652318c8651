import Reanalysis.CommandLine.Request
import Reanalysis.Harness.Workflow
import Reanalysis.Report.Coverage
import Reanalysis.Report.Targeted
import Reanalysis.Store.Overhead

/-!
# Reports on demand

Reads the logs that a kind of report needs and computes it. A report is its text and its rows.
-/

namespace Reanalysis

open Files (Location)

structure Report where
  text : String
  rows : List Json.Value

inductive ReportError where
  | reading (what : String) (cause : StoreError)
  /-- Coverage is compared per budget of the fuzzer. -/
  | noBudgets

namespace Report

abbrev Action := ExceptT ReportError (StateM Files)

def reading {α : Type} (what : String) (action : StoreAction α) : Action α := do
  match ← action.run with
  | .ok a => return a
  | .error e => throw (.reading what e)

def runs (c : Config) (log : String) (fallback : Mode) : Action (Log.Contents Run) :=
  reading (c.logPath log) (Log.readRuns (c.logPath log) fallback)

def programsOf (c : Config) (runs : List Run) : Action Scan := do
  return ((Corpus.new c.corpusDir).loadAll (← get) (Run.programs runs)).1

def cacheSizes (c : Config) (now : Instant) (runs : List Run) : Action (List (ProgramId × Nat)) := do
  return (CacheStore.mk c.resultsDir c.engineLabel now).sizes (← get) (Run.programs runs)

def widest? : List Float → Option Float
  | [] => none
  | b :: rest => some (rest.foldl (fun x y => if x < y then y else x) b)

/-- How near a sample's budget has to be to a configured one. -/
def budgetTolerance : Float := 5e-4

/-- The branches reached with the greatest budget, if there are samples. -/
def widestCoverage (c : Config) : Action (List (ProgramId × Nat)) := do
  let path := c.logPath Harness.coverageLog
  match widest? c.fuzzBudgets with
  | none => return []
  | some widest =>
    if !(← get).isFile path then return []
    let samples ← reading path (Log.readSamples path)
    let near := samples.records.filter fun s => (s.budget - widest).abs < budgetTolerance
    return near.map fun s => (s.program, s.reached)

def timing (c : Config) (now : Instant) (log : String) : Action Report := do
  let found ← runs c log .full
  let scan ← programsOf c found.records
  let extras : Extras := ⟨← cacheSizes c now found.records, ← widestCoverage c⟩
  let t := Timing.compute found.records scan extras
  let t := { t with dropped := t.dropped.addMalformed found.malformed }
  return ⟨t.render, t.rows.map TimingRow.toJson⟩

def targeted (c : Config) (now : Instant) : Action Report := do
  let full ← runs c Harness.fullLog .full
  let aimed ← runs c Harness.targetedLog .targeted
  let skips ← reading "skipped steps" (Log.readSkips (c.logPath Harness.skipLog))
  let scan ← programsOf c (full.records ++ aimed.records)
  let caches ← cacheSizes c now full.records
  let overhead ← reading "overhead" (Overhead.load (c.logPath Harness.overheadFile))
  let t := TargetedComparison.compute full.records aimed.records skips.records scan caches overhead
  let malformed := full.malformed + aimed.malformed + skips.malformed
  let t := { t with dropped := t.dropped.addMalformed malformed }
  return ⟨t.render, t.rows.map TargetedRow.toJson⟩

def coverage (c : Config) : Action Report := do
  let found ← runs c Harness.timingLog .full
  let samples ← reading "coverage samples" (Log.readSamples (c.logPath Harness.coverageLog))
  let scan ← programsOf c found.records
  match CoverageComparison.compute? found.records samples.records scan c.fuzzBudgets with
  | none => throw .noBudgets
  | some t =>
    let t := { t with dropped := t.dropped.addMalformed (found.malformed + samples.malformed) }
    return ⟨t.render, t.rows.map CoverageRow.toJson⟩

def compute (c : Config) (now : Instant) (kind : ReportKind) (log : Option String) :
    Action Report :=
  match kind with
  | .timing => timing c now (log.getD Harness.timingLog)
  | .targeted => targeted c now
  | .coverage => coverage c

def rowLines (r : Report) : Bytes :=
  Text.encode (String.join (r.rows.map fun row => row.render ++ "\n"))

end Report

end Reanalysis
