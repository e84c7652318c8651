import Reanalysis.Cache.Store
import Reanalysis.Config.Reading
import Reanalysis.Corpus.Basic
import Reanalysis.Engine.Runner
import Reanalysis.Log.Basic

/-!
# The harness

A configuration with the corpus and the store that it names. An error ends the work of the harness;
what happens to a single program is recorded and is no error.
-/

namespace Reanalysis

open Files (Location)

inductive HarnessError where
  | command (cause : CommandError)
  | config (cause : ConfigError)
  | store (cause : StoreError)
  | io (path : Location) (cause : FileError)
  /-- No run in a mode came to its end. -/
  | calibration (mode : Mode)

def HarnessError.message : HarnessError → String
  | .command cause => cause.message
  | .config cause => cause.message
  | .store cause => cause.message
  | .io path cause => s!"io error on {path}: {cause.message}"
  | .calibration mode => s!"calibration failed: no completed {mode.name} run on the empty program"

/-- What has been done stays done when an action fails later on. -/
abbrev HarnessAction (σ : Type) := ExceptT HarnessError (StateM (World σ))

namespace HarnessAction

variable {σ α : Type}

def files : HarnessAction σ Files := return (← get).files

def onFiles {ε : Type} (wrap : ε → HarnessError) (action : ExceptT ε (StateM Files) α) :
    HarnessAction σ α := do
  let w ← get
  let (result, fs) := action.run.run w.files
  set { w with files := fs }
  match result with
  | .ok a => return a
  | .error e => throw (wrap e)

def ofStore (action : StoreAction α) : HarnessAction σ α := onFiles .store action

def ofCommand (x : Except CommandError α) : HarnessAction σ α :=
  match x with
  | .ok a => return a
  | .error e => throw (.command e)

def change (path : Location) (f : Files → Except FileError Files) : HarnessAction σ Unit := do
  let w ← get
  match f w.files with
  | .ok fs => set { w with files := fs }
  | .error e => throw (.io path e)

def makeDirectories (path dir : Location) : HarnessAction σ Unit := do
  let w ← get
  let (fs, failure) := w.files.makeDirectories dir
  set { w with files := fs }
  match failure with
  | none => return
  | some e => throw (.io path e)

end HarnessAction

structure Harness where
  config : Config
  runName : String
  now : Instant

namespace Harness

def corpus (h : Harness) : Corpus := .new h.config.corpusDir

def store (h : Harness) : CacheStore := ⟨h.config.resultsDir, h.config.engineLabel, h.now⟩

/-- The first programs if their number is configured, else all that are found. -/
def programIds (h : Harness) (fs : Files) : List ProgramId :=
  match h.config.programs with
  | some n => ProgramId.upTo n
  | none => h.corpus.discover fs

end Harness

end Reanalysis
