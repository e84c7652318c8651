import Reanalysis.Program.Id
import Reanalysis.Record.Error
import Reanalysis.Run.Mode

/-!
# Runs

A run is one invocation of an engine on a program. `Entry` is its form in a log: logs may leave out
the status, the mode and the budget, and then the code decides about the status.
-/

namespace Reanalysis

structure Run where
  program : ProgramId
  seconds : Float
  code : Int
  status : Status
  mode : Mode
  budget : Option Float

namespace Run

/-- The larger of the two, and zero for what is not a number. -/
def atLeastZero (x : Float) : Float := if 0.0 < x then x else 0.0

/-- Times are never negative and always finite. -/
def elapsed (x : Float) : Float := if x.isFinite then atLeastZero x else 0.0

def completed (program : ProgramId) (mode : Mode) (seconds : Float) (code : Int) : Run :=
  ⟨program, elapsed seconds, code, if code = 0 then .ok else .failed, mode, none⟩

def timedOut (program : ProgramId) (mode : Mode) (seconds : Float) : Run :=
  ⟨program, elapsed seconds, Status.timeoutCode, .timeout, mode, none⟩

def launchFailed (program : ProgramId) (mode : Mode) (seconds : Float) : Run :=
  ⟨program, elapsed seconds, Status.launchCode, .failed, mode, none⟩

def withBudget (r : Run) (seconds : Float) : Run := { r with budget := some seconds }

/-- Only successful runs take part in reports. -/
def isSuccess (r : Run) : Bool := r.code = 0 && r.status = .ok

structure Entry where
  program : Nat
  seconds : Float
  code : Int
  status : Option Status
  mode : Option Mode
  budget : Option Float

namespace Entry

def toJson (e : Entry) : Json.Value :=
  .object <| Json.present
    [("id", some (.nat e.program)),
     ("time", some (.float e.seconds)),
     ("return_code", some (.int e.code)),
     ("status", e.status.map Status.toJson),
     ("mode", e.mode.map Mode.toJson),
     ("budget", e.budget.map .float)]

structure Draft where
  program : Option Nat := none
  seconds : Option Float := none
  code : Option Int := none
  status : Option (Option Status) := none
  mode : Option (Option Mode) := none
  budget : Option (Option Float) := none

def fields : List (Json.Member Draft) :=
  [.required "id" Draft.program (fun d x => { d with program := some x }) (Json.natBelow 0x100000000),
   .required "time" Draft.seconds (fun d x => { d with seconds := some x }) Json.float,
   .required "return_code" Draft.code (fun d x => { d with code := some x }) Json.int32,
   .optional "status" Draft.status (fun d x => { d with status := some x }) Status.reader,
   .optional "mode" Draft.mode (fun d x => { d with mode := some x }) Mode.reader,
   .optional "budget" Draft.budget (fun d x => { d with budget := some x }) Json.float]

def reader : Json.Reader Entry :=
  Json.record fields {} fun d => do
    return ⟨← d.program, ← d.seconds, ← d.code, d.status.join, d.mode.join, d.budget.join⟩

end Entry

def toEntry (r : Run) : Entry :=
  ⟨r.program.number, r.seconds, r.code, some r.status, some r.mode, r.budget⟩

/-- The run behind a line; `fallback` is the mode of lines that name none. -/
def ofEntry (e : Entry) (fallback : Mode) : Except RecordError Run :=
  match ProgramId.ofNat? e.program with
  | none => .error (.programId e.program)
  | some program =>
    if !e.seconds.isFinite || e.seconds < 0.0 then .error (.badTime e.program e.seconds)
    else .ok ⟨program, e.seconds, e.code, e.status.getD (.ofCode e.code), e.mode.getD fallback,
      e.budget⟩

theorem ofEntry_toEntry (r : Run) (fallback : Mode) (hfinite : r.seconds.isFinite = true)
    (hsign : ¬ r.seconds < 0.0) : ofEntry r.toEntry fallback = .ok r := by
  simp [ofEntry, toEntry, ProgramId.ofNat?_number, hfinite, hsign]

end Run

end Reanalysis
