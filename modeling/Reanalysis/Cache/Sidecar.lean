import Reanalysis.Clock.Instant
import Reanalysis.Digest.Basic
import Reanalysis.Program.Id

/-!
# Sidecars

What is written down next to the stored state of a program: whose it is, its size and digest, and
the program text that it was explored from.
-/

namespace Reanalysis

structure Sidecar where
  program : ProgramId
  size : Nat
  digest : Digest
  baseDigest : Option Digest
  writtenAt : Instant
deriving DecidableEq

namespace Sidecar

def toJson (s : Sidecar) : Json.Value :=
  .object <| Json.present
    [("program_id", some s.program.toJson),
     ("byte_size", some (.nat s.size)),
     ("digest", some s.digest.toJson),
     ("base_digest", s.baseDigest.map Digest.toJson),
     ("written_at", some s.writtenAt.toJson)]

structure Draft where
  program : Option ProgramId := none
  size : Option Nat := none
  digest : Option Digest := none
  baseDigest : Option (Option Digest) := none
  writtenAt : Option Instant := none

def fields : List (Json.Member Draft) :=
  [.required "program_id" Draft.program (fun d x => { d with program := some x }) ProgramId.reader,
   .required "byte_size" Draft.size (fun d x => { d with size := some x }) Json.nat64,
   .required "digest" Draft.digest (fun d x => { d with digest := some x }) Digest.reader,
   .optional "base_digest" Draft.baseDigest (fun d x => { d with baseDigest := some x })
     Digest.reader,
   .required "written_at" Draft.writtenAt (fun d x => { d with writtenAt := some x })
     Instant.reader]

def reader : Json.Reader Sidecar :=
  Json.record fields {} fun d => do
    return ⟨← d.program, ← d.size, ← d.digest, d.baseDigest.join, ← d.writtenAt⟩

def encode (s : Sidecar) : Bytes := Text.encode s.toJson.render

def decode? (bytes : Bytes) : Option Sidecar := (Json.readBytes reader bytes).toOption

end Sidecar

end Reanalysis
