import Reanalysis.Config.Basic
import Reanalysis.Decimal.Layout
import Reanalysis.Files.Basic
import Reanalysis.Text.Blank

/-!
# Validation of configurations

The checks are made in a fixed order, and the first one that fails is reported.
-/

namespace Reanalysis

inductive ConfigError where
  | read (path : Files.Location) (cause : FileError)
  | parse
  | invalid (message : String)
  | missingProgramFile (path : Files.Location)
deriving DecidableEq, Repr

def ConfigError.message : ConfigError → String
  | .read path cause => s!"cannot read config {path}: {cause.message}"
  | .parse => "cannot parse config"
  | .invalid message => "invalid config: " ++ message
  | .missingProgramFile path => "engine program file not found: " ++ path

namespace Config

def longestSeconds : Float := 604800.0

def isBudget (x : Float) : Bool := x.isFinite && 0.0 < x && x ≤ longestSeconds

def isGrace (x : Float) : Bool := x.isFinite && 0.0 ≤ x && x ≤ longestSeconds

def namesProgram (argv : List String) : Bool :=
  match argv with
  | [] => false
  | program :: _ => !Text.isBlankText program

def isPlainLabel (label : String) : Bool :=
  label ≠ "" && !label.toList.contains '/' && !label.toList.contains '\\'

def ensure (ok : Bool) (message : String) : Except ConfigError Unit :=
  if ok then .ok () else .error (.invalid message)

def shown (x : Float) : String := Decimal.message.render x

def checkPositive (name : String) (x : Float) : Except ConfigError Unit :=
  ensure (isBudget x)
    s!"{name} must be positive and at most {shown longestSeconds}, got {shown x}"

def checkProgram (name : String) (argv : List String) : Except ConfigError Unit :=
  ensure (namesProgram argv) (name ++ " must name a program")

def checkDiffer : Differ → Except ConfigError Unit
  | .named name => ensure (name = Differ.builtinName) ("unknown differ '" ++ name ++ "'")
  | .external argv => checkProgram "differ" argv

def validate (c : Config) : Except ConfigError Unit := do
  checkPositive "timeouts.full_secs" c.timeouts.full
  checkPositive "timeouts.targeted_secs" c.timeouts.targeted
  ensure (isGrace c.timeouts.grace)
    s!"timeouts.grace_secs must be between 0 and {shown longestSeconds}, got {shown c.timeouts.grace}"
  c.fuzzBudgets.forM fun b =>
    ensure (isBudget b) s!"fuzz budget {shown b} must be positive and at most {shown longestSeconds}"
  checkProgram "engine.full" c.engine.full
  checkProgram "engine.targeted" c.engine.targeted
  checkProgram "fuzzer" c.fuzzer
  checkDiffer c.differ
  ensure (isPlainLabel c.engineLabel)
    ("engine_label '" ++ c.engineLabel ++ "' must be a plain directory prefix")
  ensure (c.jobs ≠ 0) "jobs must be at least 1"
  ensure (c.calibrationSamples ≠ 0) "calibration_samples must be at least 1"
  ensure (c.programs ≠ some 0) "programs must be at least 1"

def isScript (arg : String) : Bool :=
  match Files.extension? arg with
  | some e => ["js", "mjs", "cjs"].contains e
  | none => false

/-- Scripts among the engine's arguments have to be there. -/
def checkEngineFiles (c : Config) (fs : Files) : Except ConfigError Unit :=
  match (c.engine.full ++ c.engine.targeted).find? fun arg => isScript arg && !fs.isFile arg with
  | some arg => .error (.missingProgramFile arg)
  | none => .ok ()

end Config

end Reanalysis
