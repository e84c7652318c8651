import Reanalysis.Cache.Artifact
import Reanalysis.Diff.Scripts
import Reanalysis.Store.Action

/-!
# Computing the diff of two files

Both versions are read and parsed before anything is written.
-/

namespace Reanalysis

open Files (Location)

inductive DiffError where
  | missingInput (path : Location)
  | io (path : Location) (cause : FileError)
  | unparsable (path : Location) (position : Script.Position)
deriving DecidableEq, Repr

def DiffError.message : DiffError → String
  | .missingInput path => s!"missing input file: {path}"
  | .io path cause => s!"io error on {path}: {cause.message}"
  | .unparsable path p => s!"unparsable program {path} at {p.line}:{p.column}"

namespace Diff

abbrev Action := ExceptT DiffError (StateM Files)

def readInput (path : Location) : Action String := do
  let fs ← get
  if !fs.isFile path then throw (.missingInput path)
  match fs.readText path with
  | .ok text => return text
  | .error e => throw (.io path e)

def perform (step : FileStep) : Action Unit := do
  let (fs, failure) := step.run (← get)
  set fs
  match failure with
  | none => return
  | some (path, e) => throw (.io path e)

def compute (id : ProgramId) (base modified result : Location) : Action DiffArtifact := do
  let baseText ← readInput base
  let modifiedText ← readInput modified
  match Document.ofScripts id baseText modifiedText with
  | .error ⟨.base, p⟩ => throw (.unparsable base p)
  | .error ⟨.modified, p⟩ => throw (.unparsable modified p)
  | .ok d =>
    let bytes := Text.encode d.render
    (Files.replacement result bytes).forM perform
    return ⟨id, base, modified, result, .compute bytes, d.changes.length⟩

end Diff

end Reanalysis
