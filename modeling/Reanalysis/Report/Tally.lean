import Reanalysis.Program.Id

/-!
# Programs left out of a report

Each program that is left out is named once, with the first reason that was given for it, in the
order of the ids. Log lines that could not be read are counted beside them.
-/

namespace Reanalysis

inductive DropReason where
  | failed
  | timedOut
  | diffFailed
  | missingRecord
  | malformedStats
  | unreadableRecord
  /-- It succeeded in only one of the modes that are compared. -/
  | missingInOtherMode
deriving DecidableEq, Repr

namespace DropReason

def all : List DropReason :=
  [.failed, .timedOut, .diffFailed, .missingRecord, .malformedStats, .unreadableRecord,
   .missingInOtherMode]

def label : DropReason → String
  | .failed => "failed"
  | .timedOut => "timed out"
  | .diffFailed => "diff failed"
  | .missingRecord => "missing record"
  | .malformedStats => "malformed stats"
  | .unreadableRecord => "unreadable record"
  | .missingInOtherMode => "missing in other mode"

def ofLabel? (s : String) : Option DropReason := all.find? (·.label = s)

def name : DropReason → String
  | .failed => "failed"
  | .timedOut => "timed_out"
  | .diffFailed => "diff_failed"
  | .missingRecord => "missing_record"
  | .malformedStats => "malformed_stats"
  | .unreadableRecord => "unreadable_record"
  | .missingInOtherMode => "missing_in_other_mode"

end DropReason

structure Tally where
  drops : List (ProgramId × DropReason)
  malformed : Nat
deriving DecidableEq

namespace Tally

def empty : Tally := ⟨[], 0⟩

/-- An id keeps the reason it has. -/
def insertDrop (id : ProgramId) (reason : DropReason) :
    List (ProgramId × DropReason) → List (ProgramId × DropReason)
  | [] => [(id, reason)]
  | (other, given) :: rest =>
    if id < other then (id, reason) :: (other, given) :: rest
    else if id = other then (other, given) :: rest
    else (other, given) :: insertDrop id reason rest

def record (t : Tally) (id : ProgramId) (reason : DropReason) : Tally :=
  { t with drops := insertDrop id reason t.drops }

def recordAll (t : Tally) (drops : List (ProgramId × DropReason)) : Tally :=
  drops.foldl (fun t (id, reason) => t.record id reason) t

def addMalformed (t : Tally) (n : Nat) : Tally := { t with malformed := t.malformed + n }

def merge (t other : Tally) : Tally := (t.recordAll other.drops).addMalformed other.malformed

def reason? (t : Tally) (id : ProgramId) : Option DropReason :=
  (t.drops.find? (·.1 = id)).map (·.2)

def contains (t : Tally) (id : ProgramId) : Bool := (t.reason? id).isSome

def count (t : Tally) (reason : DropReason) : Nat := t.drops.countP (·.2 = reason)

def total (t : Tally) : Nat := t.drops.length

def render (t : Tally) : String :=
  let counts := (DropReason.all.filter (0 < t.count ·)).map fun r => s!"{r.label}: {t.count r}"
  let reasons := if counts.isEmpty then "" else " (" ++ ", ".intercalate counts ++ ")"
  let lines := if t.malformed = 0 then ""
    else s!"; {t.malformed} malformed log lines skipped"
  s!"dropped {t.total} ids" ++ reasons ++ lines

def toJson (t : Tally) : Json.Value :=
  .object [("dropped", .object (t.drops.map fun (id, r) => (id.render, .text r.name))),
    ("malformed_lines", .nat t.malformed)]

end Tally

end Reanalysis
