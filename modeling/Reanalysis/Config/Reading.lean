import Reanalysis.Config.Validation
import Reanalysis.Json.Number
import Reanalysis.Toml.Document

/-!
# Reading configurations

A configuration is written in TOML. Names that are not known are refused, and what is not given
keeps its default.
-/

namespace Reanalysis

/-- A whole number is taken as well. -/
def Toml.Value.float? : Toml.Value → Option Float
  | .float x => some x
  | .int i =>
    let x := Json.floatOfNat i.natAbs
    some (if i < 0 then -x else x)
  | _ => none

namespace EngineConfig

def set (e : EngineConfig) : String × Toml.Value → Option EngineConfig
  | ("full", v) => v.texts?.map fun argv => { e with full := argv }
  | ("targeted", v) => v.texts?.map fun argv => { e with targeted := argv }
  | _ => none

def ofToml? (v : Toml.Value) : Option EngineConfig := do
  (← v.record? ["full", "targeted"]).foldlM set standard

end EngineConfig

namespace Timeouts

def set (t : Timeouts) : String × Toml.Value → Option Timeouts
  | ("full_secs", v) => v.float?.map fun x => { t with full := x }
  | ("targeted_secs", v) => v.float?.map fun x => { t with targeted := x }
  | ("grace_secs", v) => v.float?.map fun x => { t with grace := x }
  | _ => none

def ofToml? (v : Toml.Value) : Option Timeouts := do
  (← v.record? ["full_secs", "targeted_secs", "grace_secs"]).foldlM set standard

end Timeouts

def Differ.ofToml? (v : Toml.Value) : Option Differ :=
  v.text?.map .named <|> v.texts?.map .external

namespace Config

def set (c : Config) : String × Toml.Value → Option Config
  | ("corpus_dir", v) => v.text?.map fun s => { c with corpusDir := s }
  | ("results_dir", v) => v.text?.map fun s => { c with resultsDir := s }
  | ("log_dir", v) => v.text?.map fun s => { c with logDir := s }
  | ("engine_label", v) => v.text?.map fun s => { c with engineLabel := s }
  | ("engine", v) => (EngineConfig.ofToml? v).map fun e => { c with engine := e }
  | ("fuzzer", v) => v.texts?.map fun argv => { c with fuzzer := argv }
  | ("differ", v) => (Differ.ofToml? v).map fun d => { c with differ := d }
  | ("timeouts", v) => (Timeouts.ofToml? v).map fun t => { c with timeouts := t }
  | ("fuzz_budgets_secs", v) => do
    return { c with fuzzBudgets := ← (← v.list?).mapM Toml.Value.float? }
  | ("programs", v) => (v.natBelow? 0x100000000).map fun n => { c with programs := some n }
  | ("jobs", v) => (v.natBelow? 0x10000000000000000).map fun n => { c with jobs := n }
  | ("calibration_samples", v) =>
    (v.natBelow? 0x10000000000000000).map fun n => { c with calibrationSamples := n }
  | _ => none

/-- Reads a configuration without validating it. -/
def parse (text : String) : Except ConfigError Config :=
  match (Toml.parse? text).bind fun es => es.foldlM set standard with
  | some c => .ok c
  | none => .error .parse

def ofFile (fs : Files) (path : Files.Location) : Except ConfigError Config :=
  match fs.readText path with
  | .ok text => parse text
  | .error e => .error (.read path e)

/-- Looked for in the working directory when no file is named. -/
def defaultFile : Files.Location := "tabench.toml"

/-- Reads and validates a configuration. Without a file the defaults are taken. -/
def load (fs : Files) (path : Option Files.Location) : Except ConfigError Config := do
  let config ← match path with
    | some path => ofFile fs path
    | none => if fs.isFile defaultFile then ofFile fs defaultFile else pure standard
  config.validate
  return config

end Config

end Reanalysis
