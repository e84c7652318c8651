import Reanalysis.Clock.Duration
import Reanalysis.Files.Location
import Reanalysis.Program.Id

/-!
# Configuration

What a run of the harness is told: where things are, which programs to launch and how long they may
take. Everything has a default.
-/

namespace Reanalysis

/-- How the engine is called; more arguments follow these. -/
structure EngineConfig where
  full : List String
  targeted : List String
deriving DecidableEq, Repr

inductive Differ where
  | named (name : String)
  | external (argv : List String)
deriving DecidableEq, Repr

/-- In seconds. -/
structure Timeouts where
  full : Float
  targeted : Float
  /-- Comes on top of each fuzz budget. -/
  grace : Float

structure Config where
  corpusDir : Files.Location
  resultsDir : Files.Location
  logDir : Files.Location
  /-- The names of the engine's directories start with it. -/
  engineLabel : String
  engine : EngineConfig
  fuzzer : List String
  differ : Differ
  timeouts : Timeouts
  fuzzBudgets : List Float
  /-- The number of programs; all that are found when it is not given. -/
  programs : Option Nat
  jobs : Nat
  calibrationSamples : Nat

namespace EngineConfig

def standard : EngineConfig :=
  let argv := ["node", "--max-old-space-size=34359", "build/driver.js"]
  ⟨argv, argv⟩

def toJson (e : EngineConfig) : Json.Value :=
  .object [("full", .list (e.full.map .text)), ("targeted", .list (e.targeted.map .text))]

end EngineConfig

namespace Differ

def builtinName : String := "builtin"

def standard : Differ := .named builtinName

def external? : Differ → Option (List String)
  | .named _ => none
  | .external argv => some argv

def toJson : Differ → Json.Value
  | .named name => .text name
  | .external argv => .list (argv.map .text)

end Differ

namespace Timeouts

def standard : Timeouts := ⟨10.0, 10.0, 2.0⟩

def toJson (t : Timeouts) : Json.Value :=
  .object [("full_secs", .float t.full), ("targeted_secs", .float t.targeted),
    ("grace_secs", .float t.grace)]

end Timeouts

namespace Config

def standard : Config where
  corpusDir := "randjs"
  resultsDir := "results"
  logDir := "experiments"
  engineLabel := "JSE"
  engine := .standard
  fuzzer := ["npx", "jazzer"]
  differ := .standard
  timeouts := .standard
  fuzzBudgets := [0.1, 0.5, 1.0]
  programs := none
  jobs := 1
  calibrationSamples := 3

def toJson (c : Config) : Json.Value :=
  .object [("corpus_dir", .text c.corpusDir), ("results_dir", .text c.resultsDir),
    ("log_dir", .text c.logDir), ("engine_label", .text c.engineLabel),
    ("engine", c.engine.toJson), ("fuzzer", .list (c.fuzzer.map .text)),
    ("differ", c.differ.toJson), ("timeouts", c.timeouts.toJson),
    ("fuzz_budgets_secs", .list (c.fuzzBudgets.map .float)),
    ("programs", c.programs.elim .null .nat), ("jobs", .nat c.jobs),
    ("calibration_samples", .nat c.calibrationSamples)]

def fullTimeout (c : Config) : Duration := .ofSeconds c.timeouts.full

def targetedTimeout (c : Config) : Duration := .ofSeconds c.timeouts.targeted

def grace (c : Config) : Duration := .ofSeconds c.timeouts.grace

def logPath (c : Config) (name : String) : Files.Location := Files.join c.logDir name

def diffPath (c : Config) (id : ProgramId) : Files.Location :=
  Files.join (Files.join c.logDir "diffs") (id.render ++ ".diff")

end Config

end Reanalysis
