import Reanalysis.Program.Scan
import Reanalysis.Report.Summary
import Reanalysis.Report.Tally
import Reanalysis.Run.Basic

/-!
# The timing report

One row for each program whose last run succeeded and which has a record; every other program that
was run is left out with a reason.
-/

namespace Reanalysis

namespace Run

/-- The last run of a program counts: a log grows from one session to the next. -/
def latest? (runs : List Run) (id : ProgramId) : Option Run :=
  (runs.filter (·.program = id)).getLast?

def programs (runs : List Run) : List ProgramId := ProgramId.ascending (runs.map Run.program)

end Run

structure TimingRow where
  program : ProgramId
  mode : Mode
  seconds : Float
  lines : Option Nat
  metrics : Metrics
  cacheBytes : Option Nat
  reached : Option Nat
  coverage : Option Float

def TimingRow.toJson (r : TimingRow) : Json.Value :=
  .object <| Json.present
    [("program_id", some r.program.toJson),
     ("mode", some r.mode.toJson),
     ("elapsed_seconds", some (.float r.seconds)),
     ("source_lines", r.lines.map .nat),
     ("static_metrics", some r.metrics.toJson),
     ("cache_bytes", r.cacheBytes.map .nat),
     ("branches_reached", r.reached.map .nat),
     ("coverage", r.coverage.map .float)]

/-- Values by program that are added to the rows. -/
structure Extras where
  cacheBytes : List (ProgramId × Nat)
  reached : List (ProgramId × Nat)

def Extras.none : Extras := ⟨[], []⟩

structure Timing where
  rows : List TimingRow
  dropped : Tally

namespace Timing

/-- The row of a program that was run, or why it has none. -/
def place (scan : Scan) (extras : Extras) (run : Run) : Except DropReason TimingRow :=
  if !run.isSuccess then .error (if run.status = .timeout then .timedOut else .failed)
  else match scan.program? run.program with
    | .none => .error (match scan.issue? run.program with
      | some (.malformed _) => .malformedStats
      | some (.unreadable _) => .unreadableRecord
      | some (.missing _) | .none => .missingRecord)
    | some p =>
      let reached := ProgramId.latest? extras.reached run.program
      .ok ⟨run.program, run.mode, run.seconds, p.lines, p.metrics,
        ProgramId.latest? extras.cacheBytes run.program, reached, reached.map p.metrics.coverage⟩

def placed (runs : List Run) (scan : Scan) (extras : Extras) :
    List (ProgramId × Except DropReason TimingRow) :=
  (Run.programs runs).filterMap fun id =>
    (Run.latest? runs id).map fun run => (id, place scan extras run)

def compute (runs : List Run) (scan : Scan) (extras : Extras) : Timing :=
  let all := placed runs scan extras
  { rows := all.filterMap fun (_, r) => r.toOption
    dropped := Tally.empty.recordAll <| all.filterMap fun (id, r) =>
      match r with
      | .ok _ => .none
      | .error reason => some (id, reason) }

/-- Among the `size` rows from `start` on, the place of the id if it has one: half of them are left out
at each look, until one is left. -/
def probe (rows : Array TimingRow) (id : ProgramId) (start size : Nat) : Nat :=
  if size ≤ 1 then start
  else
    let middle := start + size / 2
    if rows[middle]?.any (id < ·.program) then probe rows id start (size - size / 2)
    else probe rows id middle (size - size / 2)
termination_by size

/-- The row of a program; the rows have to be in the order of the ids. -/
def row? (t : Timing) (id : ProgramId) : Option TimingRow :=
  let rows := t.rows.toArray
  rows[probe rows id 0 rows.size]?.filter (·.program = id)

def column (label : String) (values : List Float) : List String :=
  match Summary.of? values with
  | some s => ["  " ++ Decimal.padRight 16 label ++ " " ++ s.render]
  | .none => []

def render (t : Timing) : String :=
  "\n".intercalate <|
    [s!"timing: {t.rows.length} programs"] ++
      column "elapsed seconds" (t.rows.map TimingRow.seconds) ++
      column "cache bytes" ((t.rows.filterMap TimingRow.cacheBytes).map Json.floatOfNat) ++
      column "source lines" ((t.rows.filterMap TimingRow.lines).map Json.floatOfNat) ++
      ["  " ++ t.dropped.render]

end Timing

end Reanalysis
