import Mathlib.Data.List.Forall2
import Reanalysis.Proofs.Report.Joined
import Reanalysis.Proofs.Wire
import Reanalysis.Report.Coverage

/-!
# Every program of a coverage comparison is accounted for once

A program is compared when it has a row in the timing report and a sample for every budget. Of every
other program that was run or sampled it is said why it is left out. Every mean is one over all rows,
as each of them has a point for every budget.
-/

namespace Reanalysis

/-- The sample is one of the program, for a budget of as many milliseconds. -/
def Sample.Answers (id : ProgramId) (budget : Float) (s : Sample) : Prop :=
  s.program = id ∧ s.millis = Reanalysis.millis budget

/-- Every budget has a sample of the program. -/
def Sampled (samples : List Sample) (budgets : List Float) (id : ProgramId) : Prop :=
  ∀ budget ∈ budgets, ∃ s ∈ samples, s.Answers id budget

theorem mapM_eq_some_forall₂ {α β : Type} {f : α → Option β} {xs : List α} {ys : List β}
    (h : xs.mapM f = some ys) : List.Forall₂ (fun x y => f x = some y) xs ys := by
  induction xs generalizing ys with
  | nil =>
    cases h
    exact .nil
  | cons x xs ih =>
    rw [List.mapM_cons] at h
    obtain ⟨y, hy, h⟩ := Option.bind_eq_some_iff.mp h
    obtain ⟨rest, hrest, h⟩ := Option.bind_eq_some_iff.mp h
    cases h
    exact .cons hy (ih hrest)

theorem isSome_mapM_iff {α β : Type} {f : α → Option β} {xs : List α} :
    (xs.mapM f).isSome = true ↔ ∀ x ∈ xs, (f x).isSome = true := by
  induction xs with
  | nil => simp
  | cons x xs ih =>
    rw [List.forall_mem_cons, ← ih, List.mapM_cons]
    cases f x <;> cases xs.mapM f <;> simp

namespace CoverageComparison

variable {samples : List Sample} {budgets : List Float} {id : ProgramId}

/-! ## Rows -/

theorem reached?_eq_some_iff {budget : Float} {n : Nat} :
    reached? samples id budget = some n ↔
      ∃ s, IsLastWith (Sample.Answers id budget) samples s ∧ s.reached = n := by
  rw [reached?, Option.map_eq_some_iff]
  refine exists_congr fun s => and_congr_left fun _ => ?_
  rw [getLast?_filter_eq_some_iff]
  simp only [Bool.and_eq_true, decide_eq_true_eq]
  rfl

theorem isSome_reached?_iff {budget : Float} :
    (reached? samples id budget).isSome = true ↔ ∃ s ∈ samples, s.Answers id budget := by
  rw [reached?, Option.isSome_map, List.getLast?_isSome, ne_eq, List.filter_eq_nil_iff]
  simp [Sample.Answers]

/-- The row compares the last samples of its program with its row in the timing report. -/
structure Compares (samples : List Sample) (budgets : List Float) (r : TimingRow) (row : CoverageRow) :
    Prop where
  program : row.program = r.program
  branches : row.branches = r.metrics.branches
  seconds : row.seconds = r.seconds
  points : List.Forall₂ (fun budget p => p.budget = budget ∧
    ∃ s, IsLastWith (Sample.Answers r.program budget) samples s ∧ p.reached = s.reached ∧
      p.coverage = r.metrics.coverage s.reached ∧ p.rate = perSecond s.reached budget)
    budgets row.points

theorem compares_of_row? {r : TimingRow} {row : CoverageRow} (h : row? samples budgets r = some row) :
    Compares samples budgets r row := by
  obtain ⟨points, hpoints, rfl⟩ := Option.map_eq_some_iff.mp h
  refine ⟨rfl, rfl, rfl, (mapM_eq_some_forall₂ hpoints).imp fun budget p hp => ?_⟩
  obtain ⟨n, hn, rfl⟩ := Option.map_eq_some_iff.mp hp
  obtain ⟨s, hs, rfl⟩ := reached?_eq_some_iff.mp hn
  exact ⟨rfl, s, hs, rfl, rfl, rfl⟩

theorem isSome_row?_iff {r : TimingRow} :
    (row? samples budgets r).isSome = true ↔ Sampled samples budgets r.program := by
  rw [row?, Option.isSome_map, isSome_mapM_iff]
  refine forall₂_congr fun budget _ => ?_
  rw [Option.isSome_map, isSome_reached?_iff]

theorem programs_filterMap (rows : List TimingRow) :
    (rows.filterMap (row? samples budgets)).map CoverageRow.program =
      (rows.filter fun r => (row? samples budgets r).isSome).map TimingRow.program :=
  map_filterMap (fun _ _ h => (compares_of_row? h).program) rows

theorem mem_programs_filterMap_iff (rows : List TimingRow) :
    id ∈ (rows.filterMap (row? samples budgets)).map CoverageRow.program ↔
      id ∈ rows.map TimingRow.program ∧ Sampled samples budgets id := by
  rw [programs_filterMap]
  simp only [List.mem_map, List.mem_filter, isSome_row?_iff]
  constructor
  · rintro ⟨r, ⟨hr, hsampled⟩, rfl⟩
    exact ⟨⟨r, hr, rfl⟩, hsampled⟩
  · rintro ⟨⟨r, hr, rfl⟩, hsampled⟩
    exact ⟨r, ⟨hr, hsampled⟩, rfl⟩

/-! ## Means -/

def meanOf (points : List BudgetPoint) (value : BudgetPoint → Float) : Float :=
  floatSum (points.map value) / Json.floatOfNat (max points.length 1)

theorem mean_eq_meanOf {rows : List CoverageRow} {points : List BudgetPoint} {i : Nat}
    (h : rows.map (·.points[i]?) = points.map some) (value : BudgetPoint → Float) :
    mean rows (fun r => r.points[i]?.map value) = meanOf points value := by
  have hvalues : rows.filterMap (fun r => r.points[i]?.map value) = points.map value := by
    have hmap : rows.filterMap (fun r => r.points[i]?.map value) =
        (rows.map (·.points[i]?)).filterMap (Option.map value) := by
      rw [List.filterMap_map]
      rfl
    rw [hmap, h, List.filterMap_map, ← List.filterMap_eq_map]
    rfl
  have hlength : rows.length = points.length := by simpa using congrArg List.length h
  rw [mean, meanOf, hvalues, hlength]

/-- Where every row has a point for every budget, each mean is one over all rows. -/
theorem meansOf_eq {rows : List CoverageRow} {i : Nat} {budget : Float}
    (hrows : ∀ row ∈ rows, i < row.points.length) (hbudget : budgets[i]? = some budget) :
    ∃ points, rows.map (·.points[i]?) = points.map some ∧
      (meansOf rows budgets)[i]? = some ⟨budget, meanOf points BudgetPoint.coverage,
        meanOf points BudgetPoint.rate⟩ := by
  have hpoints : rows.map (·.points[i]?) = (rows.filterMap (·.points[i]?)).map some := by
    induction rows with
    | nil => rfl
    | cons row rows ih =>
      obtain ⟨hrow, hrest⟩ := List.forall_mem_cons.mp hrows
      have hpoint : row.points[i]? = some row.points[i] := List.getElem?_eq_getElem hrow
      rw [List.filterMap_cons_some (f := fun r : CoverageRow => r.points[i]?) hpoint, List.map_cons,
        List.map_cons, ← ih hrest, hpoint]
  refine ⟨_, hpoints, ?_⟩
  rw [meansOf, List.getElem?_map, List.getElem?_zipIdx, hbudget]
  simp only [Option.map_some, Nat.zero_add, mean_eq_meanOf hpoints]

/-! ## The comparison -/

def unsampled (base : Timing) (samples : List Sample) (budgets : List Float) : List ProgramId :=
  (base.rows.filter fun r => (row? samples budgets r).isNone).map TimingRow.program

def unmatched (base : Timing) (samples : List Sample) : List ProgramId :=
  (ProgramId.ascending (samples.map Sample.program)).filter fun id => (base.row? id).isNone

/-- What is left out: the drops of the timing report, and then who lacks a sample or a row in it. -/
def leftOut (base : Timing) (samples : List Sample) (budgets : List Float) : Tally :=
  (base.dropped.recordAll ((unsampled base samples budgets).map (·, .missingInOtherMode))).recordAll
    ((unmatched base samples).map (·, .missingInOtherMode))

theorem mem_unsampled_iff (base : Timing) :
    id ∈ unsampled base samples budgets ↔
      id ∈ base.rows.map TimingRow.program ∧ ¬ Sampled samples budgets id := by
  simp only [unsampled, List.mem_map, List.mem_filter, ← Option.not_isSome, Bool.not_eq_true',
    ← Bool.not_eq_true, isSome_row?_iff]
  constructor
  · rintro ⟨r, ⟨hr, hmissing⟩, rfl⟩
    exact ⟨⟨r, hr, rfl⟩, hmissing⟩
  · rintro ⟨⟨r, hr, rfl⟩, hmissing⟩
    exact ⟨r, ⟨hr, hmissing⟩, rfl⟩

theorem mem_unmatched_iff {base : Timing} (h : base.Ascending) :
    id ∈ unmatched base samples ↔
      id ∈ samples.map Sample.program ∧ id ∉ base.rows.map TimingRow.program := by
  rw [unmatched, List.mem_filter, ProgramId.mem_ascending, ← Option.not_isSome, Bool.not_eq_true',
    ← Bool.not_eq_true, h.isSome_row?_iff]

variable (runs : List Run) (samples : List Sample) (scan : Scan)

theorem exists_compute? (h : budgets ≠ []) :
    ∃ c, compute? runs samples scan budgets = some c ∧
      let base := Timing.compute runs scan .none
      c.rows = base.rows.filterMap (row? samples budgets) ∧ c.means = meansOf c.rows budgets ∧
      c.dropped = leftOut base samples budgets := by
  rw [compute?, if_neg (by simpa using h)]
  refine ⟨_, rfl, rfl, rfl, ?_⟩
  rw [leftOut, unsampled, unmatched, List.map_map]
  rfl

theorem reason?_leftOut (budgets : List Float) :
    let base := Timing.compute runs scan .none
    (leftOut base samples budgets).Ordered ∧ ∀ id, (leftOut base samples budgets).reason? id =
      if id ∈ (base.rows.filterMap (row? samples budgets)).map CoverageRow.program then none
      else if id ∈ runs.map Run.program ∨ id ∈ samples.map Sample.program then
        some ((base.dropped.reason? id).getD .missingInOtherMode)
      else none := by
  intro base
  have hbase : base.Ascending := Timing.ascending_compute runs scan .none
  obtain ⟨hfirst, hreason⟩ := (Timing.ordered_compute runs scan .none).recordAll
    ((unsampled base samples budgets).map (·, .missingInOtherMode))
  obtain ⟨hordered, hreason'⟩ := hfirst.recordAll
    ((unmatched base samples).map (·, .missingInOtherMode))
  refine ⟨hordered, fun id => (hreason' id).trans ?_⟩
  have hrow : id ∈ base.rows.map TimingRow.program ↔
      ((Timing.verdict? runs scan .none id).bind Except.toOption).isSome = true := by
    rw [← hbase.isSome_row?_iff, Timing.row?_compute]
  have hbaseReason : base.dropped.reason? id =
      (Timing.verdict? runs scan .none id).bind Timing.refusal? := Timing.reason?_compute ..
  have hfirstReason := hreason id
  rw [hbaseReason] at hfirstReason
  classical
  simp only [hfirstReason, firstReason?_map, mem_unsampled_iff, mem_unmatched_iff hbase,
    mem_programs_filterMap_iff, hrow, hbaseReason]
  rcases Timing.verdict?_cases runs scan .none id with ⟨hverdict, hran⟩ | ⟨⟨row, hverdict⟩, hran⟩ |
    ⟨⟨reason, hverdict⟩, hran⟩
  · by_cases hsampled : id ∈ samples.map Sample.program <;> simp [hverdict, hran, hsampled]
  · by_cases hsampled : Sampled samples budgets id <;>
      simp [hverdict, hran, hsampled, Timing.refusal?, Except.toOption]
  · simp [hverdict, hran, Timing.refusal?, Except.toOption]

/-- What a coverage comparison has to say about the runs and samples behind it. `base` is the timing
report of the runs. -/
structure Accounts (runs : List Run) (samples : List Sample) (budgets : List Float) (base : Timing)
    (c : CoverageComparison) : Prop where
  kept_ascending : (c.rows.map CoverageRow.program).Pairwise (· < ·)
  kept_iff : ∀ id, id ∈ c.rows.map CoverageRow.program ↔
    id ∈ base.rows.map TimingRow.program ∧ Sampled samples budgets id
  compared : ∀ row ∈ c.rows, ∃ r ∈ base.rows, Compares samples budgets r row
  dropped_ascending : (c.dropped.drops.map (·.1)).Pairwise (· < ·)
  apart : ∀ id, ¬ (id ∈ c.rows.map CoverageRow.program ∧ id ∈ c.dropped.drops.map (·.1))
  complete : ∀ id, id ∈ c.rows.map CoverageRow.program ∨ id ∈ c.dropped.drops.map (·.1) ↔
    id ∈ runs.map Run.program ∨ id ∈ samples.map Sample.program
  reason : ∀ id reason, (id, reason) ∈ c.dropped.drops ↔ id ∈ c.dropped.drops.map (·.1) ∧
    reason = (base.dropped.reason? id).getD .missingInOtherMode
  /-- Each mean is one over as many points as there are rows. -/
  means : c.means.length = budgets.length ∧ ∀ (i : Nat) (budget : Float), budgets[i]? = some budget →
    ∃ points : List BudgetPoint, c.rows.map (·.points[i]?) = points.map some ∧
      c.means[i]? = some (BudgetMeans.mk budget (meanOf points BudgetPoint.coverage)
        (meanOf points BudgetPoint.rate))

/-- For at least one budget there is a comparison, and it accounts for every program. -/
theorem every_sampled_program_accounted_once (h : budgets ≠ []) :
    ∃ c, compute? runs samples scan budgets = some c ∧
      Accounts runs samples budgets (Timing.compute runs scan .none) c := by
  obtain ⟨c, hc, hrows, hmeans, hdropped⟩ := exists_compute? runs samples scan h
  obtain ⟨hordered, hreason⟩ := reason?_leftOut runs samples scan budgets
  rw [← hdropped] at hordered hreason
  rw [← hrows] at hreason
  have hcompared : ∀ row ∈ c.rows, ∃ r ∈ (Timing.compute runs scan .none).rows,
      Compares samples budgets r row := by
    intro row hrow
    rw [hrows, List.mem_filterMap] at hrow
    obtain ⟨r, hr, hcompare⟩ := hrow
    exact ⟨r, hr, compares_of_row? hcompare⟩
  refine ⟨c, hc, ?_, ?_, hcompared, hordered, ?_, ?_, ?_, ?_, ?_⟩
  · rw [hrows, programs_filterMap]
    have hsub := (List.filter_sublist (p := fun r => (row? samples budgets r).isSome)
      (l := (Timing.compute runs scan .none).rows)).map TimingRow.program
    exact (Timing.ascending_compute runs scan .none).sublist hsub
  · intro id
    rw [hrows, mem_programs_filterMap_iff]
  · rintro id ⟨hin, hout⟩
    rw [Tally.mem_drops_iff, hreason, if_pos hin] at hout
    cases hout
  · intro id
    rw [Tally.mem_drops_iff, hreason]
    split
    · rename_i hin
      refine ⟨fun _ => ?_, fun _ => .inl hin⟩
      rw [hrows, mem_programs_filterMap_iff, Timing.mem_programs_of_rows_iff] at hin
      obtain ⟨⟨run, ⟨before, after, rfl, rfl, -⟩, -⟩, -⟩ := hin
      exact .inl (by simp)
    · rename_i hout
      rw [or_iff_right hout]
      split
      · rename_i hknown
        exact ⟨fun _ => hknown, fun _ => rfl⟩
      · rename_i hunknown
        exact ⟨fun hin => (by cases hin), fun hknown => absurd hknown hunknown⟩
  · intro id reason
    rw [hordered.mem_drops_iff_reason?, Tally.mem_drops_iff, hreason]
    split
    · simp
    split
    · simp [eq_comm]
    · simp
  · rw [hmeans, meansOf, List.length_map, List.length_zipIdx]
  · intro i budget hbudget
    rw [hmeans]
    refine meansOf_eq (fun row hrow => ?_) hbudget
    obtain ⟨r, -, hcompares⟩ := hcompared row hrow
    rw [← hcompares.points.length_eq]
    exact (List.getElem?_eq_some_iff.mp hbudget).1

def mixedRuns : List Run :=
  [.completed ⟨1, Nat.one_pos, ProgramId.one_bounded⟩ .full 1.5 0,
   .timedOut ⟨2, Nat.two_pos, ProgramId.two_bounded⟩ .full 10.0]

/-- The first program has two samples whose budgets are less than a millisecond apart, and a later one
with another budget. -/
def mixedSamples : List Sample :=
  [⟨⟨1, Nat.one_pos, ProgramId.one_bounded⟩, 0.5, 3⟩, ⟨⟨2, Nat.two_pos, ProgramId.two_bounded⟩, 0.5, 4⟩,
   ⟨⟨1, Nat.one_pos, ProgramId.one_bounded⟩, 0.5004, 7⟩, ⟨⟨1, Nat.one_pos, ProgramId.one_bounded⟩, 2.0, 8⟩]

def firstRecord : Scan :=
  ⟨[⟨⟨1, Nat.one_pos, ProgramId.one_bounded⟩, "randjs/1.jse.js", none, none, none,
    .basic 8 1.0 1.0 1.0⟩], []⟩

theorem last_sample_compared :
    ([0.5] : List Float) ≠ [] ∧
    (compute? mixedRuns mixedSamples firstRecord [0.5]).map
      (·.rows.map fun row => (row.program.number, row.points.map BudgetPoint.reached)) =
        some [(1, [7])] ∧
    ∃ c, compute? mixedRuns mixedSamples firstRecord [0.5] = some c ∧
      Accounts mixedRuns mixedSamples [0.5] (Timing.compute mixedRuns firstRecord .none) c := by
  have hBudgets : ([0.5] : List Float) ≠ [] := List.cons_ne_nil _ _
  exact ⟨hBudgets, by decide +kernel,
    every_sampled_program_accounted_once mixedRuns mixedSamples firstRecord hBudgets⟩

end CoverageComparison

end Reanalysis
