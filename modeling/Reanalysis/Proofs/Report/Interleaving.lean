import Reanalysis.Proofs.Report.Accounts
import Reanalysis.Report.Coverage

/-!
# Reports and the order of concurrent programs

Programs that run at the same time write to one log. Two logs that agree on what each single program
wrote, in the order in which it wrote it, differ only in how the programs came to be interleaved.
No report tells such logs apart.
-/

namespace Reanalysis

/-- Every program wrote the same entries in the same order to both logs. -/
def Reordered {α : Type} (key : α → ProgramId) (as bs : List α) : Prop :=
  ∀ id, as.filter (key · = id) = bs.filter (key · = id)

namespace Reordered

variable {α : Type} {key : α → ProgramId} {as bs : List α}

theorem mem_map_iff (h : Reordered key as bs) (id : ProgramId) :
    id ∈ as.map key ↔ id ∈ bs.map key := by
  have hempty : ∀ cs : List α, id ∈ cs.map key ↔ cs.filter (key · = id) ≠ [] := by
    intro cs
    simp [List.filter_eq_nil_iff]
  rw [hempty, hempty, h id]

theorem ascending_eq (h : Reordered key as bs) :
    ProgramId.ascending (as.map key) = ProgramId.ascending (bs.map key) := by
  refine ProgramId.eq_of_mem_iff (ProgramId.pairwise_ascending _) (ProgramId.pairwise_ascending _)
    fun id => ?_
  rw [ProgramId.mem_ascending, ProgramId.mem_ascending, h.mem_map_iff]

theorem filter (h : Reordered key as bs) (p : α → Bool) :
    Reordered key (as.filter p) (bs.filter p) := by
  intro id
  have hcomm : ∀ cs : List α,
      (cs.filter p).filter (key · = id) = (cs.filter (key · = id)).filter p := by
    intro cs
    rw [List.filter_filter, List.filter_filter]
    congr 1
    funext a
    rw [Bool.and_comm]
  rw [hcomm, hcomm, h id]

theorem swap (a b : α) (rest : List α) (hne : key a ≠ key b) :
    Reordered key (a :: b :: rest) (b :: a :: rest) := by
  intro id
  by_cases ha : key a = id
  · have hb : key b ≠ id := fun hb => hne (ha.trans hb.symm)
    simp [ha, hb]
  · simp [List.filter_cons, ha]

end Reordered

/-! ## Timing and targeted runs -/

theorem Run.latest?_eq {runs runs' : List Run} (h : Reordered Run.program runs runs')
    (id : ProgramId) : latest? runs id = latest? runs' id := by
  rw [latest?, latest?, h id]

theorem Timing.compute_eq {runs runs' : List Run} (h : Reordered Run.program runs runs')
    (scan : Scan) (extras : Extras) : compute runs scan extras = compute runs' scan extras := by
  have hplaced : placed runs scan extras = placed runs' scan extras := by
    rw [placed, placed, Run.programs, Run.programs, h.ascending_eq]
    congr 1
    funext id
    rw [Run.latest?_eq h]
  rw [compute, compute, hplaced]

theorem Skip.Entry.diffFailed_eq {skips skips' : List Skip.Entry} (h : skips.Perm skips')
    (id : ProgramId) : diffFailed skips id = diffFailed skips' id := h.any_eq

namespace TargetedComparison

theorem abandoned_iff {skips skips' : List Skip.Entry} {runs runs' : List Run}
    (hskips : skips.Perm skips') (hruns : Reordered Run.program runs runs') (id : ProgramId) :
    Abandoned skips runs id ↔ Abandoned skips' runs' id := by
  rw [Abandoned, Abandoned, Skip.Entry.diffFailed_eq hskips, hruns.mem_map_iff]

theorem compute_eq {full full' targeted targeted' : List Run} {skips skips' : List Skip.Entry}
    (hfull : Reordered Run.program full full')
    (htargeted : Reordered Run.program targeted targeted') (hskips : skips.Perm skips')
    (scan : Scan) (cacheBytes : List (ProgramId × Nat)) (overhead : Option Overhead) :
    compute full targeted skips scan cacheBytes overhead =
      compute full' targeted' skips' scan cacheBytes overhead := by
  have hincremental := htargeted.filter (·.mode.isIncremental)
  have hdiffs : ∀ id, firstReason? (failedDiffs (targeted.filter (·.mode.isIncremental)) skips) id =
      firstReason? (failedDiffs (targeted'.filter (·.mode.isIncremental)) skips') id := by
    intro id
    rw [firstReason?_failedDiffs, firstReason?_failedDiffs]
    exact if_congr (abandoned_iff hskips hincremental id) rfl rfl
  have hmerged := ((Timing.ordered_compute full' scan ⟨cacheBytes, []⟩).merge
    (Timing.compute (targeted'.filter (·.mode.isIncremental)) scan ⟨cacheBytes, []⟩).dropped).1
  simp only [compute, Timing.compute_eq hfull, Timing.compute_eq hincremental]
  rw [hmerged.recordAll_eq hdiffs]

end TargetedComparison

/-! ## Coverage -/

namespace CoverageComparison

theorem reached?_eq {samples samples' : List Sample}
    (h : Reordered Sample.program samples samples') (id : ProgramId) (budget : Float) :
    reached? samples id budget = reached? samples' id budget := by
  have hsplit : ∀ ss : List Sample,
      ss.filter (fun s => s.program = id && s.millis = millis budget) =
        (ss.filter (·.program = id)).filter fun s => s.millis = millis budget := by
    intro ss
    rw [List.filter_filter]
    congr 1
    funext s
    rw [Bool.and_comm]
  rw [reached?, reached?, hsplit, hsplit, h id]

theorem row?_eq {samples samples' : List Sample}
    (h : Reordered Sample.program samples samples') (budgets : List Float) (r : TimingRow) :
    row? samples budgets r = row? samples' budgets r := by
  simp only [row?, reached?_eq h]

theorem compute?_eq {runs runs' : List Run} {samples samples' : List Sample}
    (hruns : Reordered Run.program runs runs')
    (hsamples : Reordered Sample.program samples samples') (scan : Scan) (budgets : List Float) :
    compute? runs samples scan budgets = compute? runs' samples' scan budgets := by
  have hrows : row? samples budgets = row? samples' budgets := funext (row?_eq hsamples budgets)
  simp only [compute?, Timing.compute_eq hruns, hrows, hsamples.ascending_eq]

end CoverageComparison

/-- No report depends on how the programs were interleaved, nor on the order of the skips. -/
theorem reports_of_reordered_logs :
    (∀ runs runs' scan extras, Reordered Run.program runs runs' →
      Timing.compute runs scan extras = Timing.compute runs' scan extras) ∧
    (∀ full full' targeted targeted' skips skips' scan cacheBytes overhead,
      Reordered Run.program full full' → Reordered Run.program targeted targeted' →
      List.Perm skips skips' →
      TargetedComparison.compute full targeted skips scan cacheBytes overhead =
        TargetedComparison.compute full' targeted' skips' scan cacheBytes overhead) ∧
    ∀ runs runs' samples samples' scan budgets, Reordered Run.program runs runs' →
      Reordered Sample.program samples samples' →
      CoverageComparison.compute? runs samples scan budgets =
        CoverageComparison.compute? runs' samples' scan budgets := by
  refine ⟨?_, ?_, ?_⟩
  · intro runs runs' scan extras h
    exact Timing.compute_eq h scan extras
  · intro full full' targeted targeted' skips skips' scan cacheBytes overhead hfull htargeted hskips
    exact TargetedComparison.compute_eq hfull htargeted hskips scan cacheBytes overhead
  · intro runs runs' samples samples' scan budgets hruns hsamples
    exact CoverageComparison.compute?_eq hruns hsamples scan budgets

def twoFullRuns : List Run :=
  [.completed ⟨1, by decide, by decide⟩ .full 1.5 0, .completed ⟨2, by decide, by decide⟩ .full 10.0 0]

def twoTargetedRuns : List Run :=
  [.completed ⟨1, by decide, by decide⟩ .targeted 0.5 0, .completed ⟨2, by decide, by decide⟩ .cold 2.0 0]

def twoSkips : List Skip.Entry :=
  [⟨⟨1, by decide, by decide⟩, "experiment2", .diffFailed "differ timed out"⟩,
   ⟨⟨2, by decide, by decide⟩, "experiment2", .missingSource "randjs/2.jse.diff.js"⟩]

def twoSamples : List Sample :=
  [⟨⟨1, by decide, by decide⟩, 0.5, 3⟩, ⟨⟨2, by decide, by decide⟩, 0.5, 4⟩]

def twoRecords : Scan :=
  ⟨[⟨⟨1, by decide, by decide⟩, "randjs/1.jse.js", none, none, none, .basic 8 1.0 1.0 1.0⟩,
    ⟨⟨2, by decide, by decide⟩, "randjs/2.jse.js", none, none, none, .basic 6 1.0 1.0 1.0⟩], []⟩

theorem reports_of_two_jobs :
    Reordered Run.program twoFullRuns twoFullRuns.reverse ∧
    Reordered Run.program twoTargetedRuns twoTargetedRuns.reverse ∧
    Reordered Sample.program twoSamples twoSamples.reverse ∧
    (Timing.compute twoFullRuns twoRecords .none).rows.map (·.program.number) = [1, 2] ∧
    Timing.compute twoFullRuns twoRecords .none =
      Timing.compute twoFullRuns.reverse twoRecords .none ∧
    (TargetedComparison.compute twoFullRuns twoTargetedRuns twoSkips twoRecords [] none).rows.map
      (fun row => (row.program.number, row.mode)) = [(1, .targeted), (2, .cold)] ∧
    TargetedComparison.compute twoFullRuns twoTargetedRuns twoSkips twoRecords [] none =
      TargetedComparison.compute twoFullRuns.reverse twoTargetedRuns.reverse twoSkips.reverse twoRecords
        [] none ∧
    (CoverageComparison.compute? twoFullRuns twoSamples twoRecords [0.5]).map
      (·.rows.map fun row => (row.program.number, row.points.map BudgetPoint.reached)) =
        some [(1, [3]), (2, [4])] ∧
    CoverageComparison.compute? twoFullRuns twoSamples twoRecords [0.5] =
      CoverageComparison.compute? twoFullRuns.reverse twoSamples.reverse twoRecords [0.5] := by
  have hfull : Reordered Run.program twoFullRuns twoFullRuns.reverse := .swap _ _ _ (by decide)
  have htargeteds : Reordered Run.program twoTargetedRuns twoTargetedRuns.reverse :=
    .swap _ _ _ (by decide)
  have hsamples : Reordered Sample.program twoSamples twoSamples.reverse := .swap _ _ _ (by decide)
  obtain ⟨htiming, htargeted, hcoverage⟩ := reports_of_reordered_logs
  exact ⟨hfull, htargeteds, hsamples, by decide +kernel, htiming _ _ _ _ hfull, by decide +kernel,
    htargeted _ _ _ _ _ _ _ _ _ hfull htargeteds (List.reverse_perm twoSkips).symm,
    by decide +kernel, hcoverage _ _ _ _ _ _ hfull hsamples⟩

end Reanalysis
