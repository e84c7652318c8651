import Reanalysis.Run.Basic
import Reanalysis.Run.Sample
import Reanalysis.Run.Skip
import Reanalysis.Store.Action

/-!
# Logs

A log is a file with a JSON text on each line. It is written to through the number of the file, so
that it does not matter what becomes of its name. When a log is read, lines that are no records are
counted and passed over.
-/

namespace Reanalysis

open Files (Location)

structure Log where
  path : Location
  number : Nat
  /-- Where the next line goes; to the end of the file when it is not given. -/
  position : Option Nat
deriving DecidableEq, Repr

namespace Log

def makeParents (path : Location) : StoreAction Unit := do
  match Files.parent? path with
  | some dir => if dir ≠ "" then StoreAction.perform (.makeDirectories dir)
  | none => return

def openFile (path : Location) : StoreAction Nat := do
  match (← get).openFile path with
  | .ok (number, fs) => set fs; return number
  | .error e => throw (.io path e)

def attach (path : Location) : StoreAction Log := do
  makeParents path
  return ⟨path, ← openFile path, none⟩

def create (path : Location) : StoreAction Log := do
  makeParents path
  let number ← openFile path
  modify (·.setContent number [])
  return ⟨path, number, some 0⟩

/-- The contents after bytes were put at a position; zeros fill what lies before. -/
def overwrite (old : Bytes) (position : Nat) (bytes : Bytes) : Bytes :=
  old.take position ++ List.replicate (position - old.length) 0 ++ bytes ++
    old.drop (position + bytes.length)

/-- To write to a file that is open never fails here: the errors of a full disk or of a device are outside
the model of the files. -/
def append (log : Log) (value : Json.Value) : StoreAction Log := do
  let bytes := Text.encode (value.render ++ "\n")
  let old := (← get).content log.number
  match log.position with
  | none =>
    modify (·.setContent log.number (old ++ bytes))
    return log
  | some p =>
    modify (·.setContent log.number (overwrite old p bytes))
    return { log with position := some (p + bytes.length) }

/-! ## Reading -/

structure Contents (α : Type) where
  records : List α
  /-- Number of lines that are not blank and no records. -/
  malformed : Nat

def parseLines {α : Type} (parse : String → Option α) (text : String) : Contents α :=
  let lines := ((Text.lines text).map Text.trim).filter (· ≠ "")
  ⟨lines.filterMap parse, (lines.filter fun l => (parse l).isNone).length⟩

/-- The text of a log; a log that is not there is empty. -/
def readText (path : Location) : StoreAction String := do
  match (← get).readText path with
  | .ok text => return text
  | .error .notFound => return ""
  | .error e => throw (.io path e)

def parseRun (fallback : Mode) (line : String) : Option Run := do
  let e ← (Json.read Run.Entry.reader line).toOption
  (Run.ofEntry e fallback).toOption

def parseSample (line : String) : Option Sample := do
  let s ← (Json.read Sample.reader line).toOption
  s.validate.toOption

def parseSkip (line : String) : Option Skip.Entry := (Json.read Skip.Entry.reader line).toOption

def readRuns (path : Location) (fallback : Mode) : StoreAction (Contents Run) :=
  return parseLines (parseRun fallback) (← readText path)

def readSamples (path : Location) : StoreAction (Contents Sample) :=
  return parseLines parseSample (← readText path)

def readSkips (path : Location) : StoreAction (Contents Skip.Entry) :=
  return parseLines parseSkip (← readText path)

end Log

end Reanalysis
