import Reanalysis.CommandLine.Help
import Reanalysis.CommandLine.Report
import Reanalysis.Harness.Calibration

/-!
# Answers

Runs what a command line asks for. What has been printed stays printed when something fails later
on, and a failure is told from what was being done down to its cause.
-/

namespace Reanalysis.CommandLine

open Files (Location)

structure Answer where
  exit : Nat
  stdout : String
  stderr : String
deriving DecidableEq, Repr

/-- What was being done, and the causes after it. -/
abbrev Failure := List String

def Failure.render (f : Failure) : String := "error: " ++ ": ".intercalate f ++ "\n"

def storeCauses (e : StoreError) : List String :=
  match e with
  | .io _ cause => [e.message, cause.message]
  | .record cause => [e.message, cause.message]
  | _ => [e.message]

def configCauses (e : ConfigError) : List String := [e.message]

def harnessCauses (e : HarnessError) : List String :=
  match e with
  | .store cause => storeCauses cause
  | .config cause => configCauses cause
  | .io _ cause => [e.message, cause.message]
  | _ => [e.message]

def diffCauses (e : DiffError) : List String :=
  match e with
  | .io _ cause => [e.message, cause.message]
  | _ => [e.message]

/-- What a run of the program does to the world, and what it prints. -/
abbrev Work (σ : Type) := ExceptT Failure (StateT String (StateM (World σ)))

structure Surroundings (σ : Type) where
  run : Runner σ
  now : Instant
  runName : String
  scratch : Location

namespace Work

variable {σ α : Type}

def print (line : String) : Work σ Unit :=
  modifyThe String fun printed => printed ++ line ++ "\n"

def files : Work σ Files := return (← getThe (World σ)).files

def ofExcept {ε : Type} (causes : ε → Failure) (x : Except ε α) : Work σ α :=
  match x with
  | .ok a => return a
  | .error e => throw (causes e)

def onFiles {ε : Type} (causes : ε → Failure) (action : ExceptT ε (StateM Files) α) :
    Work σ α := do
  let w ← getThe (World σ)
  let (result, fs) := action.run.run w.files
  set { w with files := fs }
  ofExcept causes result

def onWorld {ε : Type} (causes : ε → Failure) (action : ExceptT ε (StateM (World σ)) α) :
    Work σ α := do
  let w ← getThe (World σ)
  let (result, w) := action.run.run w
  set w
  ofExcept causes result

end Work

open Work

variable {σ : Type}

def idOfName? (path : Location) : Option ProgramId := do
  let name ← Files.name? path
  let start := String.ofList (name.toList.takeWhile (· ≠ '.'))
  if start.startsWith "-" then none
  ProgramId.ofNat? (← word? start)

def diff (base modified result : Location) (id : Option Nat) : Work σ Unit := do
  let id ← match id with
    | some n => match ProgramId.ofNat? n with
      | some id => pure id
      | none => throw [(RecordError.programId n).message]
    | none => match idOfName? base with
      | some id => pure id
      | none => throw ["cannot infer a program id from " ++ base ++ "; pass --id"]
  let doing := "diffing " ++ modified ++ " against " ++ base
  let artifact ← onFiles (fun e => doing :: diffCauses e) (Diff.compute id base modified result)
  print (id.render ++ ": " ++ toString artifact.changeCount ++ " changes written to " ++ result)

def workflow (s : Surroundings σ) (c : Config) (w : Workflow) (programs jobs : Option Nat) :
    Work σ Unit := do
  let c := { c with programs := programs.orElse fun _ => c.programs, jobs := jobs.getD c.jobs }
  ofExcept (fun e => "invalid command-line override" :: configCauses e) c.validate
  ofExcept configCauses (c.checkEngineFiles (← files))
  let h : Harness := ⟨c, s.runName, s.now⟩
  let ids := h.programIds (← files)
  if ids.isEmpty then throw ["no programs found in " ++ c.corpusDir]
  let summary ← onWorld (fun e => (w.name ++ " aborted") :: harnessCauses e)
    (h.runWorkflow s.run w ids)
  print summary.render

def calibrate (s : Surroundings σ) (c : Config) : Work σ Unit := do
  ofExcept configCauses (c.checkEngineFiles (← files))
  let h : Harness := ⟨c, s.runName, s.now⟩
  let o ← onWorld harnessCauses (h.calibrate s.run s.scratch)
  print ("overhead over " ++ toString o.samples ++ " samples: full " ++ Decimal.fixed 3 o.full
    ++ "s, targeted " ++ Decimal.fixed 3 o.targeted ++ "s, cold " ++ Decimal.fixed 3 o.cold
    ++ "s (" ++ c.logPath Harness.overheadFile ++ ")")

def reportCauses : ReportError → List String
  | .reading what cause => ("reading " ++ what) :: storeCauses cause
  | .noBudgets => ["coverage report needs at least one fuzz budget"]

def report (s : Surroundings σ) (c : Config) (kind : ReportKind) (out : Option Location)
    (log : Option String) : Work σ Unit := do
  let out := out.getD (c.logPath (kind.name ++ "_rows.jsonl"))
  let r ← onFiles reportCauses (Report.compute c s.now kind log)
  print r.text
  onFiles (fun e => ("writing " ++ out) :: storeCauses e) (StoreAction.replace out r.rowLines)

/-- A diff needs no configuration; everything else does. -/
def perform (s : Surroundings σ) (config : Option Location) (r : Request) : Work σ Unit := do
  match r with
  | .diff base modified result id => diff base modified result id
  | other =>
    let c ← ofExcept (fun e => "loading configuration" :: configCauses e)
      (Config.load (← files) config)
    match other with
    | .workflow w programs jobs => workflow s c w programs jobs
    | .calibrate => calibrate s c
    | .report kind out log => report s c kind out log
    | .diff .. => return

def answer (s : Surroundings σ) (args : List String) : StateM (World σ) Answer := do
  match read args with
  | .misuse => return ⟨2, "", "error: see " ++ programName ++ " --help\n"⟩
  | .version => return ⟨0, programName ++ " " ++ version ++ "\n", ""⟩
  | .help topic => return ⟨0, topic.text, ""⟩
  | .request config request =>
    let (result, printed) ← (perform s config request).run.run ""
    match result with
    | .ok () => return ⟨0, printed, ""⟩
    | .error failure => return ⟨1, printed, failure.render⟩

end Reanalysis.CommandLine
