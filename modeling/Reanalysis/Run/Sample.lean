import Reanalysis.Program.Id
import Reanalysis.Record.Error

/-!
# Coverage samples

How many branches a fuzzing run of a given budget reached.
-/

namespace Reanalysis

structure Sample where
  program : ProgramId
  budget : Float
  reached : Nat

/-- Budgets are grouped by whole milliseconds; a half is rounded up, and the result stays within 64
bits. -/
def millis (seconds : Float) : Nat :=
  let x := seconds * 1000.0
  if x.isNaN then 0
  else if x < 0.0 then 0
  else match Decimal.Binary.ofFloat? x with
    | none => 0x10000000000000000 - 1
    | some b =>
      let (num, den) := b.ratio
      min (Decimal.roundRatio .up num den) (0x10000000000000000 - 1)

namespace Sample

def validate (s : Sample) : Except RecordError Sample :=
  if !s.budget.isFinite || s.budget ≤ 0.0 then .error (.badBudget s.program.number s.budget)
  else .ok s

def millis (s : Sample) : Nat := Reanalysis.millis s.budget

def toJson (s : Sample) : Json.Value :=
  .object [("program_id", s.program.toJson), ("time_budget_seconds", .float s.budget),
    ("branches_reached", .nat s.reached)]

structure Draft where
  program : Option ProgramId := none
  budget : Option Float := none
  reached : Option Nat := none

def fields : List (Json.Member Draft) :=
  [.required "program_id" Draft.program (fun d x => { d with program := some x }) ProgramId.reader,
   .required "time_budget_seconds" Draft.budget (fun d x => { d with budget := some x })
     Json.float,
   .required "branches_reached" Draft.reached (fun d x => { d with reached := some x })
     Json.nat64]

def reader : Json.Reader Sample :=
  Json.record fields {} fun d => do return ⟨← d.program, ← d.budget, ← d.reached⟩

end Sample

end Reanalysis
