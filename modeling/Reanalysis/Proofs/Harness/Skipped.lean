import Reanalysis.Proofs.Harness.Batch
import Reanalysis.Proofs.Harness.History
import Reanalysis.Proofs.Log.Recovery

/-!
# Which skips are recorded

The skips of a batch are written down after all of its steps. They are all in the log when the batch has
come to its end, and none of them is there when it has broken off.
-/

namespace Reanalysis.Harness

open HarnessAction
open Files (Location)

variable {σ : Type} {h : Harness} {run : Runner σ} {workflow : Workflow} {ids : List ProgramId}
  {steps : List OpenStep} {skips : Log} {w w₀ w₁ w₂ w' : World σ}

theorem gives_readSkips {path : Location} {fs : Files} {number : Nat} {before : String}
    {skipped : List (ProgramId × Skip)} (hWhole : Text.Whole before)
    (hStores : fs.Stores path number (Text.encode before ++
      ((skipEntries workflow skipped).map Skip.Entry.toJson).flatMap Log.line)) :
    Gives (Log.readSkips path) fs
      ⟨(Log.parseLines Log.parseSkip before).records ++ skipEntries workflow skipped,
        (Log.parseLines Log.parseSkip before).malformed⟩ fs := by
  have hText := hStores.read
  rw [Log.flatMap_line, ← Text.encode_append] at hText
  have hRead : Gives (Log.readSkips path) fs (Log.parseLines Log.parseSkip _) fs :=
    Log.gives_readLines hText
  rw [Log.parseLines_append hWhole, Skip.Entry.parseLines_entries] at hRead
  exact hRead

section Batch

variable {before : String} (hRun : run.LeavesAlone (h.config.logPath skipLog))
  (hSound : w.files.Sound) (hSkips : Gives (h.openLog skipLog) w skips w₀)
  (hSteps : Gives (workflow.steps.mapM h.openStep) w₀ steps w₁)
  (hBefore : w₁.files.read (h.config.logPath skipLog) = .ok (Text.encode before))

include hRun hSound hSkips hSteps

theorem sparing_runAll_skips (ids : List ProgramId) :
    Sparing World.files (h.config.logPath skipLog) skips.number (h.runAll run steps ids) := by
  obtain ⟨-, -, hLogs⟩ := gives_openAll hSound hSkips hSteps
  exact sparing_runAll (h.reserved_logPath List.mem_cons_self) hRun hLogs ids

include hBefore

theorem gives_readSkips_of_batch {summary : BatchSummary} (hWhole : Text.Whole before)
    (hBatch : Gives (h.runWorkflow run workflow ids) w summary w') :
    Gives (Log.readSkips (h.config.logPath skipLog)) w'.files
      ⟨(Log.parseLines Log.parseSkip before).records ++ skipEntries workflow summary.skipped,
        (Log.parseLines Log.parseSkip before).malformed⟩ w'.files := by
  obtain ⟨-, hOpened, -⟩ := gives_openAll hSound hSkips hSteps
  obtain ⟨reports, w₂, hReports, rfl, hRecord⟩ := gives_of_runWorkflow hSkips hSteps hBatch
  have hStores := (sparing_runAll_skips hRun hSound hSkips hSteps ids).of_gives hReports _
    (hOpened.stores_of_read hBefore)
  exact gives_readSkips hWhole (stores_recordSkips hOpened.position hStores hRecord)

theorem gives_readSkips_of_fails {e : HarnessError}
    (hBatch : Fails (h.runWorkflow run workflow ids) w e w') :
    Gives (Log.readSkips (h.config.logPath skipLog)) w'.files (Log.parseLines Log.parseSkip before)
      w'.files := by
  obtain ⟨-, hOpened, -⟩ := gives_openAll hSound hSkips hSteps
  have hStores := (sparing_runAll_skips hRun hSound hSkips hSteps ids).of_fails
    (fails_of_runWorkflow hSkips hSteps hBatch) _ (hOpened.stores_of_read hBefore)
  exact Log.gives_readLines hStores.read

/-- A skip of a step that has been taken is in the log afterwards exactly if the batch has come to its
end, or if the same entry was there before. -/
theorem skip_recorded_iff_batch_ends {result : Except HarnessError BatchSummary}
    {taken : List StepTaken} {t : StepTaken} {skip : Skip} (hWhole : Text.Whole before)
    (hBatch : (h.runWorkflow run workflow ids).run.run w = (result, w'))
    (hTaken : Performs h run w₁ taken w₂) (hPlan : taken.map StepTaken.plan <+: schedule ids steps)
    (ht : t ∈ taken) (hSkip : skip ∈ t.report.skips) :
    ∃ contents, Gives (Log.readSkips (h.config.logPath skipLog)) w'.files contents w'.files ∧
      (⟨t.program, workflow.name, skip⟩ ∈ contents.records ↔ result.isOk = true ∨
        ⟨t.program, workflow.name, skip⟩ ∈ (Log.parseLines Log.parseSkip before).records) := by
  cases result with
  | error e =>
    refine ⟨_, gives_readSkips_of_fails hRun hSound hSkips hSteps hBefore hBatch, ?_⟩
    simp [Except.isOk, Except.toBool]
  | ok summary =>
    refine ⟨_, gives_readSkips_of_batch hRun hSound hSkips hSteps hBefore hWhole hBatch, ?_⟩
    obtain ⟨reports, w₃, hReports, rfl, -⟩ := gives_of_runWorkflow hSkips hSteps hBatch
    obtain ⟨all, hAllPlan, hPerforms, hReported⟩ := performs_of_runAll hReports
    -- The step is one of those that the batch has taken in the end.
    obtain ⟨rest, rfl, -⟩ := hTaken.eq_append hPerforms (hAllPlan ▸ hPlan)
    have hMem : (t.program, skip) ∈ (BatchSummary.of h.runName workflow reports).skipped := by
      rw [mem_skipped_iff, hReported]
      exact List.mem_flatMap.mpr ⟨t, List.mem_append_left rest ht, List.mem_map_of_mem hSkip⟩
    have hEntry : ⟨t.program, workflow.name, skip⟩ ∈
        skipEntries workflow (BatchSummary.of h.runName workflow reports).skipped :=
      List.mem_map.mpr ⟨_, hMem, rfl⟩
    simp [hEntry, Except.isOk, Except.toBool]

end Batch

/-! ## Batches over a program without a source -/

/-- Every command ends well and leaves the files as they are. -/
def idle : Runner Unit := fun _ => return ⟨.exited 0, .zero, "", ""⟩

theorem leavesAlone_idle (path : Location) : idle.LeavesAlone path := fun _ _ _ => .refl _ _ _

def absent : ProgramId := ⟨1, Nat.one_pos, ProgramId.one_bounded⟩

def present : ProgramId := ⟨2, Nat.two_pos, ProgramId.two_bounded⟩

def halfFiles (skips : Bytes) (more : List (Place × FileNode)) : World Unit :=
  ⟨⟨[(["randjs"], .directory), (["randjs", "2.jse.js"], .file 0), (["results"], .directory),
    (["experiments"], .directory), (["experiments", "skipped.jsonl"], .file 1)] ++ more,
    [[], skips]⟩, ()⟩

/-- A line that is no entry stands in the log. -/
def calm : World Unit := halfFiles (Text.encode "?\n") []

/-- Something stands where the state of the second program goes. -/
def blocked : World Unit := halfFiles (Text.encode "?\n")
  [(["results", "JSE2"], .directory), (["results", "JSE2", "cache"], .directory)]

def ready (h : Harness) (w : World σ) : World σ :=
  ((h.openLog targetedLog).run.run
    ((h.openLog fullLog).run.run ((h.openLog skipLog).run.run w).2).2).2

def opens (h : Harness) (w : World σ) (skips full targeted : Log) : Bool :=
  let w₀ := ((h.openLog skipLog).run.run w).2
  ((h.openLog skipLog).run.run w).1.toOption = some skips ∧
    ((h.openLog fullLog).run.run w₀).1.toOption = some full ∧
    ((h.openLog targetedLog).run.run ((h.openLog fullLog).run.run w₀).2).1.toOption = some targeted

theorem gives_of_opens {full targeted : Log} (hOpens : h.opens w skips full targeted = true) :
    ∃ w₀, Gives (h.openLog skipLog) w skips w₀ ∧
      Gives (Workflow.experiment2.steps.mapM h.openStep) w₀ [.full full, .targeted targeted]
        (h.ready w) := by
  obtain ⟨hSkips, hFull, hTargeted⟩ := of_decide_eq_true hOpens
  exact ⟨_, Gives.of_toOption hSkips, gives_openSteps_experiment2_iff.mpr
    ⟨full, targeted, _, Gives.of_toOption hFull, Gives.of_toOption hTargeted, rfl⟩⟩

def smallSkips : Log := ⟨"experiments/skipped.jsonl", 1, none⟩

def smallFull : Log := ⟨"experiments/jse_base", 2, none⟩

def smallTargeted : Log := ⟨"experiments/jse_diff_analysis", 3, none⟩

/-- The first program is passed over, and then the batch comes to its end. -/
theorem absent_source_recorded :
    ∃ summary w' contents,
      Gives (bench.runWorkflow idle .experiment2 [absent, present]) calm summary w' ∧
      Gives (Log.readSkips (bench.config.logPath skipLog)) w'.files contents w'.files ∧
      ⟨absent, "experiment2", .missingSource (bench.corpus.sourcePath absent)⟩ ∈ contents.records := by
  have hSound : calm.files.Sound := .of_names (by decide) (by decide)
  obtain ⟨hOpens, hMissing, hBefore, hRuns⟩ :
      bench.opens calm smallSkips smallFull smallTargeted = true ∧
      (bench.ready calm).files.isFile (bench.corpus.sourcePath absent) = false ∧
      (bench.ready calm).files.read (bench.config.logPath skipLog) = .ok (Text.encode "?\n") ∧
      ((bench.runAll idle [.full smallFull, .targeted smallTargeted]
        [absent, present]).run.run (bench.ready calm)).1.isOk = true := by
    decide +kernel
  obtain ⟨w₀, hSkips, hSteps⟩ := gives_of_opens hOpens
  obtain ⟨reports, hReports⟩ := Gives.exists_of_isOk hRuns
  obtain ⟨w', hBatch⟩ := exists_gives_runWorkflow hSkips hSteps hReports
  have hPlan : [(absent, OpenStep.full smallFull), (absent, .targeted smallTargeted)] <+:
      schedule [absent, present] [.full smallFull, .targeted smallTargeted] := by simp [schedule]
  obtain ⟨contents, hRead, hIff⟩ :=
    skip_recorded_iff_batch_ends (leavesAlone_idle _) hSound hSkips hSteps hBefore (.inr (by decide))
      hBatch (.of_missing smallFull smallTargeted hMissing) hPlan List.mem_cons_self List.mem_cons_self
  exact ⟨_, w', contents, hBatch, hRead, hIff.mpr (.inl rfl)⟩

/-- The first program is passed over, the batch breaks off at the second, and the log of skips is as it
was. -/
theorem skip_lost_when_batch_breaks_off :
    ∃ w₀ e w' contents fs',
      Gives (bench.openLog skipLog) blocked smallSkips w₀ ∧
      Gives (Workflow.experiment2.steps.mapM bench.openStep) w₀
        [.full smallFull, .targeted smallTargeted] (bench.ready blocked) ∧
      Performs bench idle (bench.ready blocked)
        [⟨absent, .full smallFull, .ofSkip (.missingSource (bench.corpus.sourcePath absent))⟩,
          ⟨absent, .targeted smallTargeted, .ofSkip (.missingSource (bench.corpus.sourcePath absent))⟩]
        (bench.ready blocked) ∧
      Fails (bench.runWorkflow idle .experiment2 [absent, present]) blocked e w' ∧
      Gives (Log.readSkips (bench.config.logPath skipLog)) w'.files contents fs' ∧
      contents.records.isEmpty = true := by
  obtain ⟨hOpens, hMissing, hBreaks, hEmpty⟩ :
      bench.opens blocked smallSkips smallFull smallTargeted = true ∧
      (bench.ready blocked).files.isFile (bench.corpus.sourcePath absent) = false ∧
      ((bench.runWorkflow idle .experiment2 [absent, present]).run.run blocked).1.isOk = false ∧
      ((Log.readSkips (bench.config.logPath skipLog)).run.run
        ((bench.runWorkflow idle .experiment2 [absent, present]).run.run blocked).2.files).1.toOption.any
          (·.records.isEmpty) = true := by
    decide +kernel
  obtain ⟨w₀, hSkips, hSteps⟩ := gives_of_opens hOpens
  obtain ⟨e, hFails⟩ := Fails.exists_of_isOk hBreaks
  obtain ⟨contents, fs', hRead, hNone⟩ := Gives.exists_of_any hEmpty
  exact ⟨w₀, e, _, contents, fs', hSkips, hSteps, .of_missing smallFull smallTargeted hMissing, hFails,
    hRead, hNone⟩

end Reanalysis.Harness
