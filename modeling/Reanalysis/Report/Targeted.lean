import Reanalysis.Report.Overhead
import Reanalysis.Report.Timing
import Reanalysis.Run.Skip

/-!
# Full against targeted runs

The programs that succeeded in both modes, side by side. A program that has no targeted run because
its diff failed is left out for that reason, unless its full run gave another one.
-/

namespace Reanalysis

structure TargetedRow where
  program : ProgramId
  mode : Mode
  full : Float
  targeted : Float
  adjustedFull : Float
  adjustedTargeted : Float
  speedup : Option Float
  cacheBytes : Option Nat
  lines : Option Nat
  branches : Nat

def TargetedRow.toJson (r : TargetedRow) : Json.Value :=
  .object <| Json.present
    [("program_id", some r.program.toJson),
     ("mode", some r.mode.toJson),
     ("full_seconds", some (.float r.full)),
     ("targeted_seconds", some (.float r.targeted)),
     ("adjusted_full_seconds", some (.float r.adjustedFull)),
     ("adjusted_targeted_seconds", some (.float r.adjustedTargeted)),
     ("speedup", r.speedup.map .float),
     ("cache_bytes", r.cacheBytes.map .nat),
     ("source_lines", r.lines.map .nat),
     ("branch_count", some (.nat r.branches))]

structure TargetedComparison where
  rows : List TargetedRow
  dropped : Tally
  overhead : Option Overhead

namespace TargetedComparison

def adjust (overhead : Option Overhead) (mode : Mode) (seconds : Float) : Float :=
  overhead.elim seconds (·.adjust mode seconds)

def pair (overhead : Option Overhead) (f t : TimingRow) : TargetedRow :=
  let full := adjust overhead .full f.seconds
  let targeted := adjust overhead t.mode t.seconds
  ⟨f.program, t.mode, f.seconds, t.seconds, full, targeted,
    if 0.0 < targeted then some (full / targeted) else none, f.cacheBytes, f.lines,
    f.metrics.branches⟩

/-- The rows of one side without a partner on the other. -/
def unpaired (side other : Timing) : List (ProgramId × DropReason) :=
  (side.rows.filter fun r => (other.row? r.program).isNone).map fun r =>
    (r.program, .missingInOtherMode)

/-- The programs whose diff failed and which have no run in answer to a targeted request. -/
def failedDiffs (incremental : List Run) (skips : List Skip.Entry) :
    List (ProgramId × DropReason) :=
  skips.filterMap fun e =>
    match e.skip with
    | .diffFailed _ =>
      if (Run.latest? incremental e.program).isNone then some (e.program, .diffFailed) else none
    | .missingSource _ => none

def compute (full targeted : List Run) (skips : List Skip.Entry) (scan : Scan)
    (cacheBytes : List (ProgramId × Nat)) (overhead : Option Overhead) : TargetedComparison :=
  let extras : Extras := ⟨cacheBytes, []⟩
  let incremental := targeted.filter (·.mode.isIncremental)
  let f := Timing.compute full scan extras
  let t := Timing.compute incremental scan extras
  { rows := f.rows.filterMap fun r => (t.row? r.program).map (pair overhead r)
    dropped := (((f.dropped.merge t.dropped).recordAll (failedDiffs incremental skips)).recordAll
      (unpaired f t)).recordAll (unpaired t f)
    overhead := overhead }

def fullSummary? (c : TargetedComparison) : Option Summary :=
  Summary.of? (c.rows.map TargetedRow.full)

def targetedSummary? (c : TargetedComparison) : Option Summary :=
  Summary.of? (c.rows.map TargetedRow.targeted)

def adjustedSummary? (c : TargetedComparison) : Option Summary :=
  Summary.of? (c.rows.map TargetedRow.adjustedTargeted)

def speedupSummary? (c : TargetedComparison) : Option Summary :=
  Summary.of? (c.rows.filterMap TargetedRow.speedup)

def coldRows (c : TargetedComparison) : Nat := c.rows.countP (·.mode = .cold)

def column (label : String) (summary : Option Summary) : String :=
  "  " ++ Decimal.padRight 20 label ++ " " ++ summary.elim "no data" Summary.render

def render (c : TargetedComparison) : String :=
  "\n".intercalate
    [s!"targeted comparison: {c.rows.length} programs ({c.coldRows} cold)",
     column "full" c.fullSummary?,
     column "targeted" c.targetedSummary?,
     column "targeted (adjusted)" c.adjustedSummary?,
     column "speedup" c.speedupSummary?,
     match c.overhead with
     | some o => "  overhead subtracted: full " ++ Decimal.fixed 3 o.full ++ "s, targeted " ++
         Decimal.fixed 3 o.targeted ++ "s, cold " ++ Decimal.fixed 3 o.cold ++ "s"
     | none => "  no overhead measurement; times are unadjusted",
     "  " ++ c.dropped.render]

end TargetedComparison

end Reanalysis
