import Reanalysis.Digest.Basic
import Reanalysis.Program.Id

/-!
# Stored artifacts

What is recorded about the explored state of a program and about a written diff.
-/

namespace Reanalysis

structure CacheArtifact where
  program : ProgramId
  size : Nat
  path : String
  digest : Digest
  /-- The program text that the state was explored from. -/
  baseDigest : Option Digest
deriving DecidableEq

namespace CacheArtifact

/-- State without a recorded text is taken as it is. -/
def matchesBase (a : CacheArtifact) (base : Digest) : Bool := a.baseDigest.all (· = base)

def toJson (a : CacheArtifact) : Json.Value :=
  .object <| Json.present
    [("program_id", some a.program.toJson),
     ("byte_size", some (.nat a.size)),
     ("path", some (.text a.path)),
     ("digest", some a.digest.toJson),
     ("base_digest", a.baseDigest.map Digest.toJson)]

structure Draft where
  program : Option ProgramId := none
  size : Option Nat := none
  path : Option String := none
  digest : Option Digest := none
  baseDigest : Option (Option Digest) := none

def fields : List (Json.Member Draft) :=
  [.required "program_id" Draft.program (fun d x => { d with program := some x }) ProgramId.reader,
   .required "byte_size" Draft.size (fun d x => { d with size := some x }) Json.nat64,
   .required "path" Draft.path (fun d x => { d with path := some x }) Json.string,
   .required "digest" Draft.digest (fun d x => { d with digest := some x }) Digest.reader,
   .optional "base_digest" Draft.baseDigest (fun d x => { d with baseDigest := some x })
     Digest.reader]

def reader : Json.Reader CacheArtifact :=
  Json.record fields {} fun d => do
    return ⟨← d.program, ← d.size, ← d.path, ← d.digest, d.baseDigest.join⟩

end CacheArtifact

structure DiffArtifact where
  program : ProgramId
  basePath : String
  modifiedPath : String
  resultPath : String
  digest : Digest
  changeCount : Nat
deriving DecidableEq

namespace DiffArtifact

def toJson (a : DiffArtifact) : Json.Value :=
  .object
    [("program_id", a.program.toJson),
     ("base_path", .text a.basePath),
     ("modified_path", .text a.modifiedPath),
     ("result_path", .text a.resultPath),
     ("digest", a.digest.toJson),
     ("change_count", .nat a.changeCount)]

structure Draft where
  program : Option ProgramId := none
  basePath : Option String := none
  modifiedPath : Option String := none
  resultPath : Option String := none
  digest : Option Digest := none
  changeCount : Option Nat := none

def fields : List (Json.Member Draft) :=
  [.required "program_id" Draft.program (fun d x => { d with program := some x }) ProgramId.reader,
   .required "base_path" Draft.basePath (fun d x => { d with basePath := some x }) Json.string,
   .required "modified_path" Draft.modifiedPath (fun d x => { d with modifiedPath := some x })
     Json.string,
   .required "result_path" Draft.resultPath (fun d x => { d with resultPath := some x })
     Json.string,
   .required "digest" Draft.digest (fun d x => { d with digest := some x }) Digest.reader,
   .required "change_count" Draft.changeCount (fun d x => { d with changeCount := some x })
     Json.nat64]

def reader : Json.Reader DiffArtifact :=
  Json.record fields {} fun d => do
    return ⟨← d.program, ← d.basePath, ← d.modifiedPath, ← d.resultPath, ← d.digest,
      ← d.changeCount⟩

end DiffArtifact

end Reanalysis
