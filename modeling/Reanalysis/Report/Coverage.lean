import Reanalysis.Report.Timing
import Reanalysis.Run.Sample

/-!
# Symbolic execution against fuzzing

Symbolic execution is taken to reach every branch of a program, so its rate is the number of
branches over its time; the rate of the fuzzer is what it reached over its budget. A program has a
row when its symbolic run succeeded and there is a sample of it for every budget.
-/

namespace Reanalysis

structure BudgetPoint where
  budget : Float
  reached : Nat
  coverage : Float
  rate : Float

def BudgetPoint.toJson (p : BudgetPoint) : Json.Value :=
  .object [("budget_seconds", .float p.budget), ("branches_reached", .nat p.reached),
    ("coverage", .float p.coverage), ("branches_per_second", .float p.rate)]

structure CoverageRow where
  program : ProgramId
  branches : Nat
  seconds : Float
  rate : Float
  lines : Option Nat
  points : List BudgetPoint

def CoverageRow.toJson (r : CoverageRow) : Json.Value :=
  .object <| Json.present
    [("program_id", some r.program.toJson),
     ("branch_count", some (.nat r.branches)),
     ("jse_seconds", some (.float r.seconds)),
     ("jse_branches_per_second", some (.float r.rate)),
     ("source_lines", r.lines.map .nat),
     ("budgets", some (.list (r.points.map BudgetPoint.toJson)))]

structure BudgetMeans where
  budget : Float
  coverage : Float
  rate : Float

def BudgetMeans.toJson (m : BudgetMeans) : Json.Value :=
  .object [("budget_seconds", .float m.budget), ("mean_coverage", .float m.coverage),
    ("mean_branches_per_second", .float m.rate)]

structure CoverageComparison where
  rows : List CoverageRow
  means : List BudgetMeans
  dropped : Tally

namespace CoverageComparison

/-- What the last sample of a program for a budget reached. -/
def reached? (samples : List Sample) (id : ProgramId) (budget : Float) : Option Nat :=
  (samples.filter fun s => s.program = id && s.millis = millis budget).getLast?.map Sample.reached

def row? (samples : List Sample) (budgets : List Float) (r : TimingRow) : Option CoverageRow :=
  (budgets.mapM fun b => (reached? samples r.program b).map fun n =>
    (⟨b, n, r.metrics.coverage n, perSecond n b⟩ : BudgetPoint)).map fun points =>
    ⟨r.program, r.metrics.branches, r.seconds, perSecond r.metrics.branches r.seconds, r.lines,
      points⟩

/-- The mean over the rows; with no rows the sum stands for it. -/
def mean (rows : List CoverageRow) (value : CoverageRow → Option Float) : Float :=
  floatSum (rows.filterMap value) / Json.floatOfNat (max rows.length 1)

def meansOf (rows : List CoverageRow) (budgets : List Float) : List BudgetMeans :=
  budgets.zipIdx.map fun (b, i) =>
    ⟨b, mean rows fun r => r.points[i]?.map BudgetPoint.coverage,
      mean rows fun r => r.points[i]?.map BudgetPoint.rate⟩

/-- `none` without any budget. -/
def compute? (runs : List Run) (samples : List Sample) (scan : Scan) (budgets : List Float) :
    Option CoverageComparison :=
  if budgets.isEmpty then none
  else
    let base := Timing.compute runs scan .none
    let rows := base.rows.filterMap (row? samples budgets)
    let unsampled := base.rows.filter fun r => (row? samples budgets r).isNone
    let sampled := ProgramId.ascending (samples.map Sample.program)
    let unmatched := sampled.filter fun id => (base.row? id).isNone
    some
      { rows := rows
        means := meansOf rows budgets
        dropped := (base.dropped.recordAll (unsampled.map (·.program, .missingInOtherMode))).recordAll
          (unmatched.map (·, .missingInOtherMode)) }

def rateSummary? (c : CoverageComparison) : Option Summary :=
  Summary.of? (c.rows.map CoverageRow.rate)

def meansLine (m : BudgetMeans) : String :=
  "  fuzz " ++ Decimal.padLeft 6 (Decimal.fixed 2 m.budget) ++ "s          coverage " ++
    Decimal.fixed 3 m.coverage ++ ", branches/s " ++ Decimal.fixed 3 m.rate

def render (c : CoverageComparison) : String :=
  "\n".intercalate <|
    [s!"coverage comparison: {c.rows.length} programs",
     "  jse branches/s        " ++ c.rateSummary?.elim "no data" Summary.render] ++
      c.means.map meansLine ++ ["  " ++ c.dropped.render]

end CoverageComparison

end Reanalysis
