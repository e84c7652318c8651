import Reanalysis.Diff.Computation
import Reanalysis.Harness.Basic
import Reanalysis.Run.BranchReport

/-!
# The steps for one program

Each step runs an engine on a program or passes over it, and records every run in a log.
-/

namespace Reanalysis

open Files (Location)

structure StepReport where
  runs : List Run
  skips : List Skip
  /-- Number of coverage samples that were recorded. -/
  samples : Nat

namespace StepReport

def empty : StepReport := ⟨[], [], 0⟩

def ofRun (r : Run) : StepReport := ⟨[r], [], 0⟩

def ofSkip (s : Skip) : StepReport := ⟨[], [s], 0⟩

def append (a b : StepReport) : StepReport :=
  ⟨a.runs ++ b.runs, a.skips ++ b.skips, a.samples + b.samples⟩

end StepReport

def Outcome.toRun (o : Outcome) (id : ProgramId) (mode : Mode) (budget : Option Float) : Run :=
  let seconds := o.elapsed.toSeconds
  let run := match o.exit with
    | .exited code => Run.completed id mode seconds code
    | .timedOut => Run.timedOut id mode seconds
    | .launchFailed _ => Run.launchFailed id mode seconds
  budget.elim run run.withBudget

namespace Harness

open HarnessAction

variable {σ : Type}

def execute (run : Runner σ) (log : Log) (command : Command) (id : ProgramId) (mode : Mode)
    (budget : Option Float) : HarnessAction σ (Run × String) := do
  let outcome ← run command
  let result := outcome.toRun id mode budget
  let _ ← ofStore (log.append result.toEntry.toJson)
  return (result, outcome.stdout)

/-- Goes on with a file of the program, or passes over the step if it is missing. -/
def withSource (path : Location) (go : HarnessAction σ StepReport) : HarnessAction σ StepReport := do
  if (← files).isFile path then go else return .ofSkip (.missingSource path)

def digestOf (path : Location) : HarnessAction σ Digest := do
  match (← files).read path with
  | .ok bytes => return .compute bytes
  | .error e => throw (.io path e)

/-! ## Full runs -/

/-- Stores the newest state that a successful run has left. Older ones of the same run go. -/
def keepState (h : Harness) (id : ProgramId) (base : Digest) (produced : List Nat) :
    HarnessAction σ Unit := do
  match produced.getLast? with
  | some newest =>
    produced.dropLast.forM fun n => ofStore (h.store.discardProduced n)
    let _ ← ofStore (h.store.adopt id newest (some base))
  | none => let _ ← ofStore (h.store.register id (some base))

def dropState (h : Harness) (id : ProgramId) (produced : List Nat) : HarnessAction σ Unit := do
  produced.forM fun n => ofStore (h.store.discardProduced n)
  let _ ← ofStore (h.store.discard id)

/-- A full run whose state is kept. -/
def fullStep (h : Harness) (run : Runner σ) (log : Log) (id : ProgramId) :
    HarnessAction σ StepReport :=
  let source := h.corpus.sourcePath id
  withSource source do
    let base ← digestOf source
    let command ←
      ofCommand (Command.full (← files) h.config.engine.full source true h.config.fullTimeout)
    let _ ← ofStore (h.store.discard id)
    let before := h.store.engineDirs (← files)
    let (result, _) ← execute run log command id .full none
    let produced := h.store.producedSince (← files) before
    if result.isSuccess then h.keepState id base produced else h.dropState id produced
    return .ofRun result

def timingStep (h : Harness) (run : Runner σ) (log : Log) (id : ProgramId) :
    HarnessAction σ StepReport :=
  let source := h.corpus.sourcePath id
  withSource source do
    let command ←
      ofCommand (Command.full (← files) h.config.engine.full source false h.config.fullTimeout)
    let (result, _) ← execute run log command id .full none
    return .ofRun result

/-! ## Targeted runs -/

/-- Has the changes written by a program. The result says what went wrong, if anything did. -/
def runDiffer (h : Harness) (run : Runner σ) (argv : List String)
    (base modified result : Location) : HarnessAction σ (Option String) := do
  match Files.parent? result with
  | some dir => makeDirectories dir dir
  | none => pure ()
  match (← files).removeFile result with
  | .ok fs => modify fun w => { w with files := fs }
  | .error .notFound => pure ()
  | .error e => throw (.io result e)
  let command ←
    ofCommand (Command.differ (← files) argv base modified result h.config.targetedTimeout)
  let outcome ← run command
  match outcome.exit with
  | .exited code =>
    if code = 0 then
      if (← files).isFile result then return none else return some "differ wrote no result"
    else return some s!"differ exited with {code}"
  | .timedOut => return some "differ timed out"
  | .launchFailed message => return some message

def extractDiff (h : Harness) (run : Runner σ) (id : ProgramId)
    (base modified result : Location) : HarnessAction σ (Option String) := do
  match h.config.differ.external? with
  | some argv => h.runDiffer run argv base modified result
  | none =>
    let w ← get
    let (computed, fs) := (Diff.compute id base modified result).run.run w.files
    set { w with files := fs }
    match computed with
    | .ok _ => return none
    | .error e => return some e.message

/-- A sidecar that cannot be used counts as none. -/
def usableState (h : Harness) (id : ProgramId) (base : Digest) :
    HarnessAction σ (Option CacheArtifact) := do
  let w ← get
  let (found, fs) := (h.store.lookup id base).run.run w.files
  set { w with files := fs }
  match found with
  | .ok lookup => return lookup.valid?
  | .error (.corruptMeta _ _) => return none
  | .error e => throw (.store e)

/-- A run over the changes, or a full run of the modified program without usable state. -/
def targetedStep (h : Harness) (run : Runner σ) (log : Log) (id : ProgramId) :
    HarnessAction σ StepReport :=
  let base := h.corpus.sourcePath id
  let modified := h.corpus.modifiedPath id
  let diff := h.config.diffPath id
  withSource base <| withSource modified do
    match ← h.extractDiff run id base modified diff with
    | some message => return .ofSkip (.diffFailed message)
    | none =>
      let digest ← digestOf base
      let timeout := h.config.targetedTimeout
      match ← h.usableState id digest with
      | some cache =>
        let command ←
          ofCommand (Command.targeted (← files) h.config.engine.targeted cache.path diff timeout)
        let (result, _) ← execute run log command id .targeted none
        return .ofRun result
      | none =>
        let command ← ofCommand (Command.cold (← files) h.config.engine.full modified timeout)
        let (result, _) ← execute run log command id .cold none
        return .ofRun result

/-! ## Fuzzing -/

/-- One run with a budget. A sample is recorded if the fuzzer reports how far it got. -/
def fuzzRun (h : Harness) (run : Runner σ) (log coverage : Log) (id : ProgramId)
    (harness : Location) (budget : Float) : HarnessAction σ StepReport := do
  let command ← ofCommand (Command.fuzz (← files) h.config.fuzzer harness budget h.config.grace)
  let (result, stdout) ← execute run log command id .fuzz (some budget)
  match BranchReport.largest? stdout with
  | none => return .ofRun result
  | some reached =>
    match Sample.validate ⟨id, budget, reached⟩ with
    | .error e => throw (.store (.record e))
    | .ok sample =>
      let _ ← ofStore (coverage.append sample.toJson)
      return { StepReport.ofRun result with samples := 1 }

def fuzzBudgets (h : Harness) (run : Runner σ) (log coverage : Log) (id : ProgramId)
    (harness : Location) : List Float → HarnessAction σ StepReport
  | [] => return .empty
  | budget :: rest => do
    let first ← h.fuzzRun run log coverage id harness budget
    return first.append (← h.fuzzBudgets run log coverage id harness rest)

def fuzzStep (h : Harness) (run : Runner σ) (log coverage : Log) (id : ProgramId) :
    HarnessAction σ StepReport :=
  let harness := h.corpus.harnessPath id
  withSource harness (h.fuzzBudgets run log coverage id harness h.config.fuzzBudgets)

end Harness

end Reanalysis
