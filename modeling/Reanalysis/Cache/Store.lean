import Reanalysis.Cache.Artifact
import Reanalysis.Cache.Sidecar
import Reanalysis.Store.Action
import Reanalysis.Text.Digit

/-!
# The store of explored states

An engine writes the state that it has explored to a file `cache` in a directory of its own, whose
name is a label and a number. The store keeps the state of a program in the directory with the
number of the program, with a sidecar next to it. The contents of a state are never looked into.
-/

namespace Reanalysis

open Files (Location)

structure CacheStore where
  resultsDir : Location
  label : String
  /-- The time that new sidecars are given. -/
  now : Instant

/-- What is known about the stored state of a program, given the program text. -/
inductive CacheLookup where
  | valid (artifact : CacheArtifact)
  | absent
  /-- The state was explored from another text. -/
  | stale (recorded : Digest)
deriving DecidableEq

def CacheLookup.valid? : CacheLookup → Option CacheArtifact
  | .valid a => some a
  | _ => none

namespace CacheStore

open StoreAction

/-! ## Where things are -/

def blobName : String := "cache"

def engineDir (s : CacheStore) (n : Nat) : Location := Files.join s.resultsDir (s.label ++ toString n)

def engineBlob (s : CacheStore) (n : Nat) : Location := Files.join (s.engineDir n) blobName

def entryDir (s : CacheStore) (id : ProgramId) : Location := s.engineDir id.number

def cachePath (s : CacheStore) (id : ProgramId) : Location := s.engineBlob id.number

def metaPath (s : CacheStore) (id : ProgramId) : Location :=
  Files.join (s.entryDir id) "cache.meta.json"

/-! ## Writing -/

def sidecar (s : CacheStore) (id : ProgramId) (state : Bytes) (base : Option Digest) : Sidecar :=
  ⟨id, state.length, .compute state, base, s.now⟩

def artifact (s : CacheStore) (id : ProgramId) (state : Bytes) (base : Option Digest) :
    CacheArtifact :=
  ⟨id, state.length, s.cachePath id, .compute state, base⟩

def metaSteps (s : CacheStore) (id : ProgramId) (state : Bytes) (base : Option Digest) :
    List FileStep :=
  Files.replacement (s.metaPath id) (s.sidecar id state base).encode

/-- First the state is replaced and then its sidecar. -/
def writeSteps (s : CacheStore) (id : ProgramId) (state : Bytes) (base : Option Digest) :
    List FileStep :=
  Files.replacement (s.cachePath id) state ++ s.metaSteps id state base

def write (s : CacheStore) (id : ProgramId) (state : Bytes) (base : Option Digest) :
    StoreAction CacheArtifact := do
  (s.writeSteps id state base).forM perform
  return s.artifact id state base

/-- Writes the sidecar for a state that is in place; none if there is no state. -/
def register (s : CacheStore) (id : ProgramId) (base : Option Digest) :
    StoreAction (Option CacheArtifact) := do
  match ← readOptional (s.cachePath id) with
  | none => return none
  | some state =>
    (s.metaSteps id state base).forM perform
    return some (s.artifact id state base)

/-! ## What engines leave -/

/-- Inserts a number into an ascending list; one that is there already is not repeated. -/
def insertNumber (n : Nat) : List Nat → List Nat
  | [] => [n]
  | m :: rest =>
    if n < m then n :: m :: rest else if n = m then m :: rest else m :: insertNumber n rest

def engineDirs (s : CacheStore) (fs : Files) : List Nat :=
  let numbers := (fs.children s.resultsDir).filterMap fun (name, node) =>
    if node = .directory && s.label.toList.isPrefixOf name.toList then
      Text.boundedNat? 0x100000000 (name.toList.drop s.label.toList.length)
    else none
  numbers.foldr insertNumber []

def producedSince (s : CacheStore) (fs : Files) (before : List Nat) : List Nat :=
  (s.engineDirs fs).filter fun n => !before.contains n && fs.isFile (s.engineBlob n)

/-- Takes the state that an engine left in a directory for the state of a program. -/
def adopt (s : CacheStore) (id : ProgramId) (produced : Nat) (base : Option Digest) :
    StoreAction (Option CacheArtifact) := do
  if produced = id.number then s.register id base
  else
    let source := s.engineBlob produced
    if !(← get).isFile source then return none
    perform (.makeDirectories (s.entryDir id))
    change source (·.rename source (s.cachePath id))
    s.register id base

def discardProduced (s : CacheStore) (produced : Nat) : StoreAction Unit := do
  let _ ← removeOptional (s.engineBlob produced)

/-! ## Reading -/

/-- State without a sidecar is measured on the spot. A sidecar without state counts for nothing. -/
def read (s : CacheStore) (id : ProgramId) : StoreAction (Option CacheArtifact) := do
  match ← readOptional (s.metaPath id) with
  | none => return (← readOptional (s.cachePath id)).map (s.artifact id · none)
  | some bytes =>
    match Sidecar.decode? bytes with
    | none => throw (.corruptMeta (s.metaPath id) .undecodable)
    | some m =>
      if m.program ≠ id then
        throw (.corruptMeta (s.metaPath id) (.otherProgram m.program.number))
      if !(← get).isFile (s.cachePath id) then return none
      return some ⟨id, m.size, s.cachePath id, m.digest, m.baseDigest⟩

def lookup (s : CacheStore) (id : ProgramId) (base : Digest) : StoreAction CacheLookup := do
  match ← s.read id with
  | none => return .absent
  | some a =>
    match a.baseDigest with
    | some recorded => return if recorded = base then .valid a else .stale recorded
    | none => return .valid a

def discard (s : CacheStore) (id : ProgramId) : StoreAction Bool := do
  let state ← removeOptional (s.cachePath id)
  let described ← removeOptional (s.metaPath id)
  return state || described

def sizes (s : CacheStore) (fs : Files) (ids : List ProgramId) : List (ProgramId × Nat) :=
  (ProgramId.ascending ids).filterMap fun id =>
    match (s.read id).run.run fs with
    | (.ok (some a), _) => some (id, a.size)
    | _ => none

end CacheStore

end Reanalysis
