import Reanalysis.Proofs.Harness.Concurrent
import Reanalysis.Proofs.Report.Sampled

/-!
# Which fuzzing runs are sampled

A step of fuzzing runs the fuzzer once for each budget. A sample is recorded for every run whose output
has a report, however the run has ended. So the samples are those of successful runs exactly if no other
run has reported anything, and a count in a coverage report may come from a run that failed.
-/

namespace Reanalysis

open Files (Location)

variable {σ : Type}

structure Invocation where
  budget : Float
  outcome : Outcome

namespace Invocation

def Succeeded (id : ProgramId) (i : Invocation) : Prop :=
  (i.outcome.toRun id .fuzz (some i.budget)).isSuccess = true

instance (id : ProgramId) (i : Invocation) : Decidable (i.Succeeded id) :=
  inferInstanceAs (Decidable (_ = true))

/-- What the output of the run tells. -/
def sample? (id : ProgramId) (i : Invocation) : Option Sample :=
  (BranchReport.largest? i.outcome.stdout).map (⟨id, i.budget, ·⟩)

def samples (id : ProgramId) (done : List Invocation) : List Sample := done.filterMap (·.sample? id)

theorem samples_cons (id : ProgramId) (i : Invocation) (done : List Invocation) :
    samples id (i :: done) = (i.sample? id).toList ++ samples id done := by
  rw [samples, List.filterMap_cons]
  cases i.sample? id <;> rfl

end Invocation

namespace Sample

def lines (samples : List Sample) : Bytes := (samples.map toJson).flatMap Log.line

@[simp] theorem lines_nil : lines [] = [] := rfl

@[simp] theorem lines_append (samples more : List Sample) :
    lines (samples ++ more) = lines samples ++ lines more := by
  simp [lines]

theorem length_lines_cons (s : Sample) (samples : List Sample) :
    (lines (s :: samples)).length = (Log.line s.toJson).length + (lines samples).length := by
  simp [lines]

theorem length_line_pos (s : Sample) : 0 < (Log.line s.toJson).length := by
  rw [Log.line, Text.encode_append, List.length_append]
  exact Nat.lt_of_lt_of_le (by decide +kernel : 0 < (Text.encode "\n").length) (Nat.le_add_left _ _)

theorem length_lines_le {samples more : List Sample} (h : samples.Sublist more) :
    (lines samples).length ≤ (lines more).length := by
  induction h with
  | slnil => exact Nat.le_refl _
  | cons s _ ih =>
    rw [length_lines_cons]
    omega
  | cons_cons s _ ih =>
    rw [length_lines_cons, length_lines_cons]
    omega

theorem eq_of_length_lines {samples more : List Sample} (h : samples.Sublist more)
    (hLength : (lines samples).length = (lines more).length) : samples = more := by
  induction h with
  | slnil => rfl
  | cons s hRest _ =>
    have hLine := length_line_pos s
    have hLess := length_lines_le hRest
    rw [length_lines_cons] at hLength
    omega
  | cons_cons s _ ih =>
    rw [length_lines_cons, length_lines_cons] at hLength
    rw [ih (by omega)]

end Sample

namespace Invocation

variable {id : ProgramId} {chosen done : List Invocation} {i : Invocation}

theorem samples_filter (done : List Invocation) :
    samples id (done.filter fun i => (i.sample? id).isSome) = samples id done := by
  induction done with
  | nil => rfl
  | cons i done ih =>
    cases hSample : i.sample? id with
    | none => rw [List.filter_cons_of_neg (by simp [hSample]), ih, samples_cons, hSample]; rfl
    | some s => rw [List.filter_cons_of_pos (by simp [hSample]), samples_cons, ih, samples_cons]

theorem mem_of_lines_eq (hChosen : chosen.Sublist done)
    (hLines : Sample.lines (samples id chosen) = Sample.lines (samples id done)) (hi : i ∈ done)
    (hReport : (i.sample? id).isSome = true) : i ∈ chosen := by
  have hSublist : (samples id chosen).Sublist (samples id done) := hChosen.filterMap _
  have hCount := congrArg List.length (Sample.eq_of_length_lines hSublist (congrArg List.length hLines))
  rw [samples, samples, List.length_filterMap_eq_countP, List.length_filterMap_eq_countP,
    List.countP_eq_length_filter, List.countP_eq_length_filter] at hCount
  have hSame := (hChosen.filter fun i => (i.sample? id).isSome).eq_of_length hCount
  have hMem : i ∈ done.filter fun i => (i.sample? id).isSome := List.mem_filter.mpr ⟨hi, hReport⟩
  rw [← hSame] at hMem
  exact (List.mem_filter.mp hMem).1

end Invocation

/-- Every count in a coverage report is that of a sample. -/
theorem CoverageComparison.exists_sample {runs : List Run} {samples : List Sample} {scan : Scan}
    {budgets : List Float} {c : CoverageComparison} (h : compute? runs samples scan budgets = some c)
    {row : CoverageRow} (hRow : row ∈ c.rows) {p : BudgetPoint} (hPoint : p ∈ row.points) :
    ∃ s ∈ samples, s.Answers row.program p.budget ∧ s.reached = p.reached := by
  have hBudgets : budgets ≠ [] := by
    rintro rfl
    cases h
  obtain ⟨c', hc', hRows, -⟩ := exists_compute? runs samples scan hBudgets
  obtain rfl : c' = c := Option.some.inj (hc'.symm.trans h)
  rw [hRows] at hRow
  obtain ⟨r, -, hCompare⟩ := List.mem_filterMap.mp hRow
  have hCompares := compares_of_row? hCompare
  obtain ⟨n, hn, rfl⟩ := List.getElem_of_mem hPoint
  obtain ⟨hLength, hPoints⟩ := List.forall₂_iff_get.mp hCompares.points
  obtain ⟨hBudget, s, ⟨before, after, rfl, hAnswers, -⟩, hReached, -⟩ :=
    hPoints n (hLength ▸ hn) hn
  refine ⟨s, by simp, ?_, hReached.symm⟩
  rw [hCompares.program, show row.points[n].budget = _ from hBudget]
  exact hAnswers

namespace Harness

open HarnessAction

/-- All runs of a step with some budgets. There are no more when a command cannot be built. -/
def invocations (h : Harness) (run : Runner σ) (log coverage : Log) (id : ProgramId)
    (harness : Location) : List Float → World σ → List Invocation
  | [], _ => []
  | budget :: rest, w =>
    (Command.fuzz w.files h.config.fuzzer harness budget h.config.grace).toOption.elim []
      fun command => ⟨budget, ((run command).run w).1⟩ ::
        h.invocations run log coverage id harness rest
          ((h.fuzzRun run log coverage id harness budget).run.run w).2

variable {h : Harness} {run : Runner σ} {log coverage : Log} {id : ProgramId} {harness : Location}
  {budget : Float} {w : World σ} {old : Bytes}

theorem invocations_of_error {e : CommandError}
    (hCommand : Command.fuzz w.files h.config.fuzzer harness budget h.config.grace = .error e)
    (rest : List Float) : h.invocations run log coverage id harness (budget :: rest) w = [] := by
  rw [invocations, hCommand]
  rfl

theorem invocations_of_ok {command : Command} {report : StepReport} {w₁ : World σ}
    (hCommand : Command.fuzz w.files h.config.fuzzer harness budget h.config.grace = .ok command)
    (hFirst : Gives (h.fuzzRun run log coverage id harness budget) w report w₁) (rest : List Float) :
    h.invocations run log coverage id harness (budget :: rest) w =
      ⟨budget, ((run command).run w).1⟩ :: h.invocations run log coverage id harness rest w₁ := by
  rw [invocations, hCommand, hFirst]
  rfl

/-! ## One run -/

theorem isBudget_isFile_of_fuzz {fs : Files} {argv : List String} {grace : Duration} {command : Command}
    (hCommand : Command.fuzz fs argv harness budget grace = .ok command) :
    Config.isBudget budget = true ∧ fs.isFile harness = true := by
  rw [Command.fuzz] at hCommand
  split at hCommand
  · cases hCommand
  · rename_i hBudget
    refine ⟨by simpa using hBudget, ?_⟩
    unfold Command.build at hCommand
    split at hCommand
    · cases hCommand
    · split at hCommand
      · cases hCommand
      · split at hCommand
        · cases hCommand
        · split at hCommand
          · cases hCommand
          · rename_i hFound
            simpa using List.find?_eq_none.mp hFound harness List.mem_cons_self

theorem validate_of_isBudget (id : ProgramId) (hBudget : Config.isBudget budget = true) (n : Nat) :
    Sample.validate ⟨id, budget, n⟩ = .ok ⟨id, budget, n⟩ := by
  simp only [Config.isBudget, Bool.and_eq_true, decide_eq_true_eq] at hBudget
  simp [Sample.validate, hBudget.1.1, Json.float_not_le_of_lt hBudget.1.2]

theorem exists_gives_execute (run : Runner σ) (log : Log) (command : Command) (id : ProgramId)
    (mode : Mode) (budget : Option Float) (w : World σ) :
    ∃ w', Gives (execute run log command id mode budget) w
      (((run command).run w).1.toRun id mode budget, ((run command).run w).1.stdout) w' := by
  obtain ⟨log', fs', hAppend⟩ := log.exists_gives_append ((run command).run w).2.files
    (((run command).run w).1.toRun id mode budget).toEntry.toJson
  exact ⟨_, Gives.bind_iff.mpr ⟨_, _, Gives.lift_iff.mpr rfl, Gives.bind_iff.mpr
    ⟨log', _, gives_ofStore_iff.mpr ⟨fs', hAppend, rfl⟩, Gives.pure_iff.mpr ⟨rfl, rfl⟩⟩⟩⟩

theorem fails_fuzzRun {e : CommandError}
    (hCommand : Command.fuzz w.files h.config.fuzzer harness budget h.config.grace = .error e) :
    Fails (h.fuzzRun run log coverage id harness budget) w (.command e) w := by
  refine Fails.gives_bind (gives_files_iff.mpr ⟨rfl, rfl⟩) (Fails.bind ?_ _)
  rw [hCommand]
  rfl

section Recording

variable (hRun : run.LeavesAlone coverage.path) (hLogs : log.number ≠ coverage.number)
  (hEnd : coverage.position = none)

include hRun hLogs hEnd

theorem exists_gives_fuzzRun (id : ProgramId) {command : Command}
    (hCommand : Command.fuzz w.files h.config.fuzzer harness budget h.config.grace = .ok command)
    (hStored : w.files.Stores coverage.path coverage.number old) :
    ∃ report w', Gives (h.fuzzRun run log coverage id harness budget) w report w' ∧
      w'.files.Stores coverage.path coverage.number
        (old ++ Sample.lines ((Invocation.mk budget ((run command).run w).1).sample? id).toList) := by
  obtain ⟨w₁, hExecute⟩ := exists_gives_execute run log command id .fuzz (some budget) w
  have hStored₁ := (sparing_execute hRun hLogs command .fuzz (some budget)).of_gives hExecute old hStored
  generalize ((run command).run w).1 = o at hExecute ⊢
  have hValid := validate_of_isBudget id (isBudget_isFile_of_fuzz hCommand).1
  -- Whatever follows goes on with the outcome of the command.
  have hOn : ∀ {report : StepReport} {w' : World σ} {rest},
      Gives (rest (o.toRun id .fuzz (some budget), o.stdout)) w₁ report w' →
      Gives (files >>= fun fs => ofCommand (Command.fuzz fs h.config.fuzzer harness budget h.config.grace)
        >>= fun command => execute run log command id .fuzz (some budget) >>= rest) w report w' :=
    fun hRest => Gives.bind_iff.mpr ⟨_, _, gives_files_iff.mpr ⟨rfl, rfl⟩,
      Gives.bind_iff.mpr ⟨command, w, gives_ofCommand_iff.mpr ⟨hCommand, rfl⟩,
        Gives.bind_iff.mpr ⟨_, w₁, hExecute, hRest⟩⟩⟩
  cases hReport : BranchReport.largest? o.stdout with
  | none =>
    refine ⟨_, w₁, hOn (by dsimp only; rw [hReport]; exact Gives.pure_iff.mpr ⟨rfl, rfl⟩), ?_⟩
    simpa [Invocation.sample?, hReport, Sample.lines] using hStored₁
  | some reached =>
    obtain ⟨log', fs', hAppend⟩ := coverage.exists_gives_append w₁.files
      (Sample.mk id budget reached).toJson
    have hAdded : Gives (ofStore (coverage.append (Sample.mk id budget reached).toJson)) w₁ log'
        { w₁ with files := fs' } := gives_ofStore_iff.mpr ⟨fs', hAppend, rfl⟩
    refine ⟨_, _, hOn (by
      dsimp only
      rw [hReport]
      dsimp only
      rw [hValid]
      exact Gives.bind_iff.mpr ⟨log', _, hAdded, Gives.pure_iff.mpr ⟨rfl, rfl⟩⟩), ?_⟩
    have hStored₂ := stores_append (fun _ => hEnd) hStored₁ hAdded
    simpa [Invocation.sample?, hReport, Sample.lines] using hStored₂

/-! ## All runs of a step -/

theorem stores_fuzzBudgets (budgets : List Float)
    (hStored : w.files.Stores coverage.path coverage.number old) :
    ((h.fuzzBudgets run log coverage id harness budgets).run.run w).2.files.Stores coverage.path
      coverage.number (old ++ Sample.lines (Invocation.samples id
        (h.invocations run log coverage id harness budgets w))) := by
  induction budgets generalizing w old with
  | nil =>
    rw [invocations, Invocation.samples, List.filterMap_nil, Sample.lines_nil, List.append_nil]
    exact hStored
  | cons budget budgets ih =>
    rw [fuzzBudgets]
    cases hCommand : Command.fuzz w.files h.config.fuzzer harness budget h.config.grace with
    | error e =>
      rw [(fails_fuzzRun hCommand).bind, invocations_of_error hCommand, Invocation.samples,
        List.filterMap_nil, Sample.lines_nil, List.append_nil]
      exact hStored
    | ok command =>
      obtain ⟨report, w₁, hFirst, hStored₁⟩ :=
        exists_gives_fuzzRun hRun hLogs hEnd id hCommand hStored
      rw [hFirst.run_bind, run_bind_pure_snd, invocations_of_ok hCommand hFirst, Invocation.samples_cons,
        Sample.lines_append, ← List.append_assoc]
      exact ih hStored₁

omit hRun hLogs hEnd in
theorem invocations_of_missing (budgets : List Float) (hMissing : w.files.isFile harness = false) :
    h.invocations run log coverage id harness budgets w = [] := by
  cases budgets with
  | nil => rfl
  | cons budget budgets =>
    cases hCommand : Command.fuzz w.files h.config.fuzzer harness budget h.config.grace with
    | error e => exact invocations_of_error hCommand budgets
    | ok command => exact absurd (isBudget_isFile_of_fuzz hCommand).2 (by simp [hMissing])

theorem stores_fuzzStep (hStored : w.files.Stores coverage.path coverage.number old) :
    ((h.fuzzStep run log coverage id).run.run w).2.files.Stores coverage.path coverage.number
      (old ++ Sample.lines (Invocation.samples id (h.invocations run log coverage id
        (h.corpus.harnessPath id) h.config.fuzzBudgets w))) := by
  cases hFile : w.files.isFile (h.corpus.harnessPath id) with
  | false =>
    have hSkip : Gives (h.fuzzStep run log coverage id) w _ w := gives_withSource_missing hFile
    rw [hSkip, invocations_of_missing _ hFile, Invocation.samples, List.filterMap_nil, Sample.lines_nil,
      List.append_nil]
    exact hStored
  | true =>
    have hStep : (h.fuzzStep run log coverage id).run.run w = (h.fuzzBudgets run log coverage id
        (h.corpus.harnessPath id) h.config.fuzzBudgets).run.run w := by
      rw [fuzzStep, withSource, (gives_files_iff.mpr ⟨rfl, rfl⟩).run_bind, hFile]
      rfl
    rw [hStep]
    exact stores_fuzzBudgets hRun hLogs hEnd _ hStored

end Recording

/-- After a step of fuzzing, the coverage log holds a sample of every run whose output has a report, and
no others. These are samples of successful runs exactly if no other run has reported anything. Every count
in a coverage report that is made of them is one that some run has reported. -/
theorem samples_of_successes_iff (h : Harness) (run : Runner σ) (log coverage : Log) (id : ProgramId)
    (w : World σ) (old : Bytes) (hRun : run.LeavesAlone coverage.path)
    (hLogs : log.number ≠ coverage.number) (hEnd : coverage.position = none)
    (hStored : w.files.Stores coverage.path coverage.number old) :
    let done := h.invocations run log coverage id (h.corpus.harnessPath id) h.config.fuzzBudgets w
    let after := ((h.fuzzStep run log coverage id).run.run w).2.files
    after.read coverage.path = .ok (old ++ Sample.lines (Invocation.samples id done)) ∧
      ((∃ chosen : List Invocation, chosen.Sublist done ∧ (∀ i ∈ chosen, i.Succeeded id) ∧
          after.read coverage.path = .ok (old ++ Sample.lines (Invocation.samples id chosen))) ↔
        ∀ i ∈ done, (i.sample? id).isSome = true → i.Succeeded id) ∧
      ∀ runs scan budgets c,
        CoverageComparison.compute? runs (Invocation.samples id done) scan budgets = some c →
        ∀ row ∈ c.rows, ∀ p ∈ row.points, ∃ i ∈ done, ∃ s ∈ i.sample? id,
          s.Answers row.program p.budget ∧ s.reached = p.reached := by
  intro done after
  have hRead : after.read coverage.path = .ok (old ++ Sample.lines (Invocation.samples id done)) :=
    (stores_fuzzStep hRun hLogs hEnd hStored).read
  refine ⟨hRead, ⟨?_, ?_⟩, ?_⟩
  · rintro ⟨chosen, hChosen, hSucceeded, hSame⟩ i hi hReport
    have hLines : old ++ Sample.lines (Invocation.samples id chosen) =
        old ++ Sample.lines (Invocation.samples id done) := Except.ok.inj (hSame.symm.trans hRead)
    exact hSucceeded i (Invocation.mem_of_lines_eq hChosen (List.append_cancel_left hLines) hi hReport)
  · intro hAll
    refine ⟨done.filter fun i => (i.sample? id).isSome, List.filter_sublist, ?_, ?_⟩
    · intro i hi
      obtain ⟨hi, hReport⟩ := List.mem_filter.mp hi
      exact hAll i hi hReport
    · rw [Invocation.samples_filter, hRead]
  · intro runs scan budgets c hCompute row hRow p hPoint
    obtain ⟨s, hs, hAnswers, hReached⟩ := CoverageComparison.exists_sample hCompute hRow hPoint
    obtain ⟨i, hi, hSample⟩ := List.mem_filterMap.mp hs
    exact ⟨i, hi, s, hSample, hAnswers, hReached⟩

def fuzzBench : Harness :=
  ⟨{ Config.standard with fuzzer := ["fuzz"], fuzzBudgets := [0.5] }, "", ⟨0, 0⟩⟩

def fuzzFiles : World Unit :=
  ⟨⟨[(["randjs"], .directory), (["randjs", "1.jazzer.js"], .file 0), (["experiments"], .directory),
    (["experiments", "jazzer_runs"], .file 1), (["experiments", "jazzer_cov.jsonl"], .file 2)],
    [[], [], []]⟩, ()⟩

def fuzzRuns : Log := ⟨"experiments/jazzer_runs", 1, none⟩

def fuzzCoverage : Log := ⟨"experiments/jazzer_cov.jsonl", 2, none⟩

def fuzzed : ProgramId := ⟨1, Nat.one_pos, ProgramId.one_bounded⟩

/-- Every run reports the same and ends in the same way. -/
def reporting (exit : Exit) : Runner Unit := fun _ => return ⟨exit, .zero, "branch: 9\n", ""⟩

theorem leavesAlone_reporting (exit : Exit) (path : Location) : (reporting exit).LeavesAlone path :=
  fun _ _ _ => .refl _ _ _

theorem stores_fuzzCoverage : fuzzFiles.files.Stores fuzzCoverage.path fuzzCoverage.number [] := by
  refine ⟨⟨["experiments", "jazzer_cov.jsonl"], ?_⟩, rfl⟩
  rfl

def reported (exit : Exit) : Invocation := ⟨0.5, ⟨exit, .zero, "branch: 9\n", ""⟩⟩

theorem invocations_fuzzBench (exit : Exit) :
    fuzzBench.invocations (reporting exit) fuzzRuns fuzzCoverage fuzzed
      (fuzzBench.corpus.harnessPath fuzzed) fuzzBench.config.fuzzBudgets fuzzFiles = [reported exit] := by
  have hCommand : (Command.fuzz fuzzFiles.files fuzzBench.config.fuzzer
      (fuzzBench.corpus.harnessPath fuzzed) 0.5 fuzzBench.config.grace).toOption.isSome = true := by
    rfl
  obtain ⟨command, hCommand⟩ := Option.isSome_iff_exists.mp hCommand
  have hBudgets : fuzzBench.config.fuzzBudgets = [0.5] := rfl
  rw [hBudgets, invocations, hCommand]
  rfl

theorem sample?_reported (exit : Exit) : (reported exit).sample? fuzzed = some ⟨fuzzed, 0.5, 9⟩ := by
  have hReport : BranchReport.largest? "branch: 9\n" = some 9 := rfl
  rw [Invocation.sample?, reported, hReport]
  rfl

theorem successful_run_sampled :
    fuzzFiles.files.Stores fuzzCoverage.path fuzzCoverage.number [] ∧
    let after := ((fuzzBench.fuzzStep (reporting (.exited 0)) fuzzRuns fuzzCoverage fuzzed).run.run
      fuzzFiles).2.files
    ∃ chosen : List Invocation, chosen.Sublist [reported (.exited 0)] ∧
      (∀ i ∈ chosen, i.Succeeded fuzzed) ∧
      after.read fuzzCoverage.path = .ok (Sample.lines (Invocation.samples fuzzed chosen)) := by
  refine ⟨stores_fuzzCoverage, ?_⟩
  obtain ⟨-, hIff, -⟩ := samples_of_successes_iff fuzzBench (reporting (.exited 0)) fuzzRuns fuzzCoverage
    fuzzed fuzzFiles [] (leavesAlone_reporting _ _) (by decide) rfl stores_fuzzCoverage
  rw [invocations_fuzzBench] at hIff
  refine hIff.mpr fun i hi _ => ?_
  rw [List.mem_singleton.mp hi]
  decide

/-- A run that fails is sampled all the same, and its count gets into the coverage report. -/
theorem failed_run_sampled :
    let after := ((fuzzBench.fuzzStep (reporting (.exited 1)) fuzzRuns fuzzCoverage fuzzed).run.run
      fuzzFiles).2.files
    ¬ (reported (.exited 1)).Succeeded fuzzed ∧
      after.read fuzzCoverage.path = .ok (Sample.lines [⟨fuzzed, 0.5, 9⟩]) ∧
      (CoverageComparison.compute? CoverageComparison.mixedRuns [⟨fuzzed, 0.5, 9⟩]
        CoverageComparison.firstRecord [0.5]).map (·.rows.map fun row =>
          (row.program.number, row.points.map BudgetPoint.reached)) = some [(1, [9])] := by
  intro after
  refine ⟨by decide, ?_, rfl⟩
  have hStored : after.Stores fuzzCoverage.path fuzzCoverage.number ([] ++ Sample.lines
      (Invocation.samples fuzzed (fuzzBench.invocations (reporting (.exited 1)) fuzzRuns fuzzCoverage fuzzed
        (fuzzBench.corpus.harnessPath fuzzed) fuzzBench.config.fuzzBudgets fuzzFiles))) :=
    stores_fuzzStep (leavesAlone_reporting _ _) (by decide) rfl stores_fuzzCoverage
  rw [invocations_fuzzBench, Invocation.samples_cons, sample?_reported] at hStored
  exact hStored.read

end Harness

end Reanalysis
