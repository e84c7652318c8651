import Reanalysis.Files.Basic
import Reanalysis.Record.Error

/-!
# Actions on stored files

Whatever is stored in one piece replaces what was there at once: the new contents go to a file
without a name, which then takes the name over. The steps of such a replacement are values, so that
one that breaks off can be described by the steps it got to.
-/

namespace Reanalysis

open Files (Location)

inductive FileStep where
  | makeDirectories (dir : Location)
  /-- Writes a new file that has no name yet. -/
  | stage (bytes : Bytes)
  /-- Gives the file that was written last its name. -/
  | publish (path : Location)
deriving DecidableEq

/-- A failure names the location at which it occurred. -/
def FileStep.run (fs : Files) : FileStep → Files × Option (Location × FileError)
  | .makeDirectories dir =>
    let (fs, failure) := fs.makeDirectories dir
    (fs, failure.map (dir, ·))
  | .stage bytes => ((fs.stage bytes).2, none)
  | .publish path =>
    match fs.link (fs.contents.length - 1) path with
    | .ok fs => (fs, none)
    | .error e => (fs, some (path, e))

def Files.directoryOf (path : Location) : Location :=
  match Files.parent? path with
  | some dir => if dir = "" then "." else dir
  | none => "."

/-- The steps that put contents in the place of whatever is at a location. -/
def Files.replacement (path : Location) (bytes : Bytes) : List FileStep :=
  [.makeDirectories (Files.directoryOf path), .stage bytes, .publish path]

inductive MetaProblem where
  | undecodable
  | otherProgram (number : Nat)
deriving DecidableEq, Repr

inductive StoreError where
  | io (path : Location) (cause : FileError)
  | encode (fault : Json.Fault)
  | corruptMeta (path : Location) (problem : MetaProblem)
  | record (cause : RecordError)

def MetaProblem.message : MetaProblem → String
  | .undecodable => "not a sidecar"
  | .otherProgram n => s!"sidecar names program {n}"

def StoreError.message : StoreError → String
  | .io path cause => s!"io error on {path}: {cause.message}"
  | .encode _ => "encoding error"
  | .corruptMeta path problem => s!"corrupt cache metadata at {path}: {problem.message}"
  | .record cause => s!"artifact error: {cause.message}"

/-- What an action has changed stays changed when it fails later on. -/
abbrev StoreAction := ExceptT StoreError (StateM Files)

namespace StoreAction

def change (path : Location) (f : Files → Except FileError Files) : StoreAction Unit := do
  match f (← get) with
  | .ok fs => set fs
  | .error e => throw (.io path e)

def perform (step : FileStep) : StoreAction Unit := do
  let (fs, failure) := step.run (← get)
  set fs
  match failure with
  | none => return
  | some (path, e) => throw (.io path e)

def replace (path : Location) (bytes : Bytes) : StoreAction Unit :=
  (Files.replacement path bytes).forM perform

def readOptional (path : Location) : StoreAction (Option Bytes) := do
  match (← get).read path with
  | .ok bytes => return some bytes
  | .error .notFound => return none
  | .error e => throw (.io path e)

def removeOptional (path : Location) : StoreAction Bool := do
  match (← get).removeFile path with
  | .ok fs => set fs; return true
  | .error .notFound => return false
  | .error e => throw (.io path e)

end StoreAction

end Reanalysis
