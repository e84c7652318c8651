import Reanalysis.Harness.Step

/-!
# Workflows

A workflow takes every program through the same steps, one program after the other. Afterwards the
steps that were passed over are written to a log of their own, and everything is counted.
-/

namespace Reanalysis

inductive Step where
  | full
  | timing
  | targeted
  | fuzz
deriving DecidableEq, Repr

inductive Workflow where
  | full
  | timing
  | targeted
  | fuzz
  /-- Timing runs and fuzzing. -/
  | experiment1
  /-- Full runs and targeted runs. -/
  | experiment2
deriving DecidableEq, Repr

namespace Workflow

def all : List Workflow := [.full, .timing, .targeted, .fuzz, .experiment1, .experiment2]

def name : Workflow → String
  | .full => "full"
  | .timing => "timing"
  | .targeted => "targeted"
  | .fuzz => "fuzz"
  | .experiment1 => "experiment1"
  | .experiment2 => "experiment2"

def ofName? (s : String) : Option Workflow := all.find? (·.name = s)

def steps : Workflow → List Step
  | .full => [.full]
  | .timing => [.timing]
  | .targeted => [.targeted]
  | .fuzz => [.fuzz]
  | .experiment1 => [.timing, .fuzz]
  | .experiment2 => [.full, .targeted]

end Workflow

/-! ## Counting -/

structure BatchSummary where
  runName : String
  workflow : Workflow
  programs : Nat
  ok : Nat
  failed : Nat
  timedOut : Nat
  cold : Nat
  samples : Nat
  skipped : List (ProgramId × Skip)

namespace BatchSummary

def of (runName : String) (workflow : Workflow) (reports : List (ProgramId × StepReport)) :
    BatchSummary :=
  let sorted := reports.mergeSort fun a b => a.1.number ≤ b.1.number
  let runs := sorted.flatMap fun (_, r) => r.runs
  let count (s : Status) := (runs.filter (·.status = s)).length
  { runName, workflow
    programs := reports.length
    ok := count .ok
    failed := count .failed
    timedOut := count .timeout
    cold := (runs.filter (·.mode = .cold)).length
    samples := sorted.foldl (fun n (_, r) => n + r.samples) 0
    skipped := sorted.flatMap fun (id, r) => r.skips.map (id, ·) }

def toJson (s : BatchSummary) : Json.Value :=
  .object [("run_id", .text s.runName), ("workflow", .text s.workflow.name),
    ("programs", .nat s.programs), ("ok", .nat s.ok), ("failed", .nat s.failed),
    ("timed_out", .nat s.timedOut), ("cold", .nat s.cold), ("samples", .nat s.samples),
    ("skipped", .list (s.skipped.map fun (id, skip) => .list [id.toJson, skip.toJson]))]

/-- Counts that are often zero are left out then. -/
def render (s : BatchSummary) : String :=
  let counted (n : Nat) (what : String) := if n = 0 then "" else s!", {n} {what}"
  let line (e : ProgramId × Skip) := s!"\n  {e.1.render}: {e.2.message}"
  s!"{s.workflow.name} [{s.runName}]: {s.programs} programs, {s.ok} ok, {s.failed} failed, " ++
    s!"{s.timedOut} timed out" ++ counted s.cold "cold" ++ counted s.samples "coverage samples" ++
    counted s.skipped.length "skipped" ++ String.join (s.skipped.map line)

end BatchSummary

/-! ## Running -/

/-- A step with the log of its runs, and that of coverage samples for fuzzing. -/
inductive OpenStep where
  | full (log : Log)
  | timing (log : Log)
  | targeted (log : Log)
  | fuzz (log coverage : Log)

namespace Harness

open HarnessAction

variable {σ : Type}

def fullLog : String := "jse_base"
def targetedLog : String := "jse_diff_analysis"
def timingLog : String := "jse_results"
def fuzzLog : String := "jazzer_runs"
def coverageLog : String := "jazzer_cov.jsonl"
def skipLog : String := "skipped.jsonl"
def overheadFile : String := "overhead.json"

def openLog (h : Harness) (name : String) : HarnessAction σ Log :=
  ofStore (Log.attach (h.config.logPath name))

def openStep (h : Harness) : Step → HarnessAction σ OpenStep
  | .full => return .full (← h.openLog fullLog)
  | .timing => return .timing (← h.openLog timingLog)
  | .targeted => return .targeted (← h.openLog targetedLog)
  | .fuzz => do
    let coverage ← h.openLog coverageLog
    return .fuzz (← h.openLog fuzzLog) coverage

def runStep (h : Harness) (run : Runner σ) (id : ProgramId) :
    OpenStep → HarnessAction σ StepReport
  | .full log => h.fullStep run log id
  | .timing log => h.timingStep run log id
  | .targeted log => h.targetedStep run log id
  | .fuzz log coverage => h.fuzzStep run log coverage id

def runSteps (h : Harness) (run : Runner σ) (id : ProgramId) :
    List OpenStep → HarnessAction σ StepReport
  | [] => return .empty
  | step :: rest => do
    let first ← h.runStep run id step
    return first.append (← h.runSteps run id rest)

/-- The batch of one job: `config.jobs` is not read, and the programs come one after the other. With more
jobs their courses are interleaved, in one of many ways. -/
def runWorkflow (h : Harness) (run : Runner σ) (workflow : Workflow) (ids : List ProgramId) :
    HarnessAction σ BatchSummary := do
  let skips ← h.openLog skipLog
  let steps ← workflow.steps.mapM h.openStep
  let reports ← ids.mapM fun id => do return (id, ← h.runSteps run id steps)
  let summary := BatchSummary.of h.runName workflow reports
  summary.skipped.forM fun (id, skip) => do
    let _ ← ofStore (skips.append (Skip.Entry.mk id workflow.name skip).toJson)
  return summary

end Harness

end Reanalysis
