import Reanalysis.Engine.Runner
import Reanalysis.Store.Action

/-!
# Scripted runs

Runs that follow a script: each run takes the next entry, which says what becomes of the files and
how the run ends. The commands are kept. After the end of the script, runs succeed and do nothing.
-/

namespace Reanalysis.Scripted

open Files (Location)

structure Entry where
  exit : Exit
  /-- The usual time, or the limit for a run that is stopped there, when it is not given. -/
  millis : Option Nat
  stdout : String
  stderr : String
  directories : List Location
  writes : List (Location × Bytes)
  removals : List Location

def Entry.standard : Entry := ⟨.exited 0, none, "", "", [], [], []⟩

structure Script where
  entries : List Entry
  calls : List Command

def usualMillis : Nat := 100

def Entry.elapsed (e : Entry) (command : Command) : Duration :=
  match e.millis, e.exit with
  | some n, _ => .ofMillis n
  | none, .timedOut => command.timeout
  | none, _ => .ofMillis usualMillis

/-- A change that fails is left out. -/
def attempt (fs : Files) (f : Files → Except FileError Files) : Files :=
  match f fs with
  | .ok fs => fs
  | .error _ => fs

def writeWithParents (fs : Files) (path : Location) (bytes : Bytes) : Files :=
  let (fs, _) := fs.makeDirectories (Files.directoryOf path)
  attempt fs (·.write path bytes)

def Entry.apply (e : Entry) (fs : Files) : Files :=
  let fs := e.directories.foldl (fun fs p => (fs.makeDirectories p).1) fs
  let fs := e.writes.foldl (fun fs (p, bytes) => writeWithParents fs p bytes) fs
  e.removals.foldl (fun fs p => fs.removeAll p) fs

def run : Runner Script := fun command => do
  let w ← get
  let entry := w.engine.entries.head?.getD .standard
  set (⟨entry.apply w.files, ⟨w.engine.entries.tail, w.engine.calls ++ [command]⟩⟩ : World Script)
  return ⟨entry.exit, entry.elapsed command, entry.stdout, entry.stderr⟩

end Reanalysis.Scripted
