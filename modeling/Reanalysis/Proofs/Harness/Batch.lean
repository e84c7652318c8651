import Reanalysis.Proofs.Harness.Quiet
import Reanalysis.Proofs.Log.Skips

/-!
# Batches

A batch opens its logs, takes one program after the other through all steps, and then writes down
what was skipped. `Performs` lists the steps that have come to their end, also when the batch breaks off
later.
-/

namespace Reanalysis

open Files (Location)

/-! ## Steps one after the other -/

structure StepTaken where
  program : ProgramId
  step : OpenStep
  report : StepReport

namespace StepTaken

def plan (t : StepTaken) : ProgramId × OpenStep := (t.program, t.step)

def skipped (t : StepTaken) : List (ProgramId × Skip) := t.report.skips.map (t.program, ·)

end StepTaken

def schedule (ids : List ProgramId) (steps : List OpenStep) : List (ProgramId × OpenStep) :=
  ids.flatMap fun id => steps.map (id, ·)

theorem schedule_append (front back : List ProgramId) (steps : List OpenStep) :
    schedule (front ++ back) steps = schedule front steps ++ schedule back steps :=
  List.flatMap_append

theorem program_mem_of_plan {ts : List StepTaken} {ids : List ProgramId} {steps : List OpenStep}
    (hPlan : ts.map StepTaken.plan = schedule ids steps) {t : StepTaken} (ht : t ∈ ts) :
    t.program ∈ ids ∧ t.step ∈ steps := by
  have hMem : t.plan ∈ schedule ids steps := hPlan ▸ List.mem_map_of_mem ht
  obtain ⟨id, hId, hStep⟩ := List.mem_flatMap.mp hMem
  obtain ⟨step, hStep, hSame⟩ := List.mem_map.mp hStep
  obtain ⟨rfl, rfl⟩ := Prod.mk.inj hSame
  exact ⟨hId, hStep⟩

namespace Harness

open HarnessAction

variable {σ : Type} {h : Harness} {run : Runner σ} {w w₁ w₂ w' : World σ}
  {ts us : List StepTaken} {steps : List OpenStep} {ids : List ProgramId} {path : Location}
  {number : Nat}

/-- These steps have come to their ends one after the other. -/
inductive Performs (h : Harness) (run : Runner σ) : World σ → List StepTaken → World σ → Prop
  | nil (w : World σ) : Performs h run w [] w
  | cons {w w₁ w' : World σ} {t : StepTaken} {ts : List StepTaken}
      (hStep : Gives (h.runStep run t.program t.step) w t.report w₁) (hRest : Performs h run w₁ ts w') :
      Performs h run w (t :: ts) w'

namespace Performs

theorem of_missing {id : ProgramId} (full targeted : Log)
    (hMissing : w.files.isFile (h.corpus.sourcePath id) = false) :
    Performs h run w [⟨id, .full full, .ofSkip (.missingSource (h.corpus.sourcePath id))⟩,
      ⟨id, .targeted targeted, .ofSkip (.missingSource (h.corpus.sourcePath id))⟩] w :=
  .cons (gives_withSource_missing hMissing) (.cons (gives_withSource_missing hMissing) (.nil w))

theorem append (hFront : Performs h run w ts w₁) (hBack : Performs h run w₁ us w') :
    Performs h run w (ts ++ us) w' := by
  induction hFront with
  | nil w => exact hBack
  | cons hStep _ ih => exact .cons hStep (ih hBack)

theorem split (hAll : Performs h run w (ts ++ us) w') :
    ∃ w₁, Performs h run w ts w₁ ∧ Performs h run w₁ us w' := by
  induction ts generalizing w with
  | nil => exact ⟨w, .nil w, hAll⟩
  | cons t ts ih =>
    cases hAll with
    | cons hStep hRest =>
      obtain ⟨w₁, hFront, hBack⟩ := ih hRest
      exact ⟨w₁, .cons hStep hFront, hBack⟩

theorem eq_append (hPart : Performs h run w ts w₁) (hAll : Performs h run w us w')
    (hPlan : ts.map StepTaken.plan <+: us.map StepTaken.plan) :
    ∃ rest, us = ts ++ rest ∧ Performs h run w₁ rest w' := by
  induction hPart generalizing us with
  | nil w => exact ⟨us, rfl, hAll⟩
  | @cons w w₂ w₁ t ts hStep hRest ih =>
    cases hAll with
    | nil => simp at hPlan
    | @cons _ w₃ _ u us hStep' hRest' =>
      rw [List.map_cons, List.map_cons, List.cons_prefix_cons] at hPlan
      obtain ⟨hFirst, hPlan⟩ := hPlan
      obtain ⟨hProgram, hThat⟩ := Prod.mk.inj hFirst
      -- The same step, taken from the same state, has one report and one end.
      rw [← hProgram, ← hThat, Gives, hStep] at hStep'
      obtain ⟨hReport, rfl⟩ := Prod.mk.inj hStep'
      obtain ⟨rest, rfl, hEnd⟩ := ih hRest' hPlan
      refine ⟨rest, ?_, hEnd⟩
      rcases t with ⟨program, step, report⟩
      rcases u with ⟨program', step', report'⟩
      cases hProgram
      cases hThat
      cases hReport
      rfl

end Performs

/-! ## All steps of a batch -/

theorem performs_of_runSteps {program : ProgramId} {report : StepReport}
    (hRun : Gives (h.runSteps run program steps) w report w') :
    ∃ ts, ts.map StepTaken.plan = schedule [program] steps ∧ Performs h run w ts w' ∧
      report.skips = ts.flatMap fun t => t.report.skips := by
  induction steps generalizing w report with
  | nil =>
    obtain ⟨rfl, rfl⟩ := Gives.pure_iff.mp hRun
    exact ⟨[], rfl, .nil w, rfl⟩
  | cons step steps ih =>
    simp only [runSteps, Gives.bind_iff, Gives.pure_iff] at hRun
    obtain ⟨first, w₁, hFirst, rest, _, hRest, rfl, rfl⟩ := hRun
    obtain ⟨ts, hPlan, hPerforms, hSkips⟩ := ih hRest
    refine ⟨⟨program, step, first⟩ :: ts, ?_, .cons hFirst hPerforms, ?_⟩
    · rw [List.map_cons, hPlan]
      rfl
    · rw [List.flatMap_cons, ← hSkips]
      rfl

def runAll (h : Harness) (run : Runner σ) (steps : List OpenStep) (ids : List ProgramId) :
    HarnessAction σ (List (ProgramId × StepReport)) :=
  ids.mapM fun id => do return (id, ← h.runSteps run id steps)

def recordSkips (skips : Log) (workflow : Workflow) (skipped : List (ProgramId × Skip)) :
    HarnessAction σ Unit :=
  skipped.forM fun (id, skip) => do
    let _ ← ofStore (skips.append (Skip.Entry.mk id workflow.name skip).toJson)

theorem runWorkflow_eq (h : Harness) (run : Runner σ) (workflow : Workflow) (ids : List ProgramId) :
    h.runWorkflow run workflow ids = (do
      let skips ← h.openLog skipLog
      let steps ← workflow.steps.mapM h.openStep
      let reports ← h.runAll run steps ids
      recordSkips skips workflow (BatchSummary.of h.runName workflow reports).skipped
      return BatchSummary.of h.runName workflow reports) := rfl

theorem performs_of_runAll {reports : List (ProgramId × StepReport)}
    (hRun : Gives (h.runAll run steps ids) w reports w') :
    ∃ ts, ts.map StepTaken.plan = schedule ids steps ∧ Performs h run w ts w' ∧
      (reports.flatMap fun r => r.2.skips.map (r.1, ·)) = ts.flatMap StepTaken.skipped := by
  induction ids generalizing w reports with
  | nil =>
    obtain ⟨rfl, rfl⟩ := Gives.mapM_nil_iff.mp hRun
    exact ⟨[], rfl, .nil w, rfl⟩
  | cons id ids ih =>
    simp only [runAll, Gives.mapM_cons_iff, Gives.bind_iff, Gives.pure_iff] at hRun
    obtain ⟨_, w₁, rest, ⟨report, _, hFirst, rfl, rfl⟩, hRest, rfl⟩ := hRun
    obtain ⟨ts, hPlan, hPerforms, hSkips⟩ := performs_of_runSteps hFirst
    obtain ⟨us, hPlan', hPerforms', hSkips'⟩ := ih hRest
    refine ⟨ts ++ us, ?_, hPerforms.append hPerforms', ?_⟩
    · rw [List.map_append, hPlan, hPlan', ← schedule_append, List.singleton_append]
    · have hProgram : ∀ t ∈ ts, t.program = id := fun t ht =>
        List.mem_singleton.mp (program_mem_of_plan hPlan ht).1
      rw [List.flatMap_cons, List.flatMap_append, hSkips', hSkips, List.map_flatMap]
      congr 1
      refine List.flatMap_congr fun t ht => ?_
      rw [StepTaken.skipped, hProgram t ht]

theorem exists_gives_runSteps {program : ProgramId}
    (hPlan : ts.map StepTaken.plan = schedule [program] steps) (hAll : Performs h run w ts w') :
    ∃ report, Gives (h.runSteps run program steps) w report w' := by
  induction steps generalizing ts w with
  | nil =>
    obtain rfl := List.map_eq_nil_iff.mp hPlan
    cases hAll
    exact ⟨.empty, Gives.pure_iff.mpr ⟨rfl, rfl⟩⟩
  | cons step steps ih =>
    cases hAll with
    | nil => cases hPlan
    | @cons _ w₁ _ t ts hStep hRest =>
      obtain ⟨hFirst, hPlan⟩ := List.cons.inj hPlan
      obtain ⟨rfl, rfl⟩ := Prod.mk.inj hFirst
      obtain ⟨report, hReport⟩ := ih hPlan hRest
      refine ⟨t.report.append report, ?_⟩
      simp only [runSteps, Gives.bind_iff, Gives.pure_iff]
      exact ⟨t.report, w₁, hStep, report, w', hReport, rfl, rfl⟩

theorem exists_gives_runAll (hPlan : ts.map StepTaken.plan = schedule ids steps)
    (hAll : Performs h run w ts w') : ∃ reports, Gives (h.runAll run steps ids) w reports w' := by
  induction ids generalizing ts w with
  | nil =>
    obtain rfl := List.map_eq_nil_iff.mp hPlan
    cases hAll
    exact ⟨[], Gives.mapM_nil_iff.mpr ⟨rfl, rfl⟩⟩
  | cons id ids ih =>
    rw [← List.singleton_append, schedule_append] at hPlan
    obtain ⟨front, back, rfl, hFront, hBack⟩ := List.map_eq_append_iff.mp hPlan
    obtain ⟨w₁, hFirst, hRest⟩ := hAll.split
    obtain ⟨report, hReport⟩ := exists_gives_runSteps hFront hFirst
    obtain ⟨reports, hReports⟩ := ih hBack hRest
    refine ⟨(id, report) :: reports, Gives.mapM_cons_iff.mpr ⟨(id, report), w₁, reports, ?_, hReports, rfl⟩⟩
    exact Gives.bind_iff.mpr ⟨report, w₁, hReport, rfl⟩

theorem sparing_runAll (hPath : Reserved path) (hRun : run.LeavesAlone path)
    (hLogs : ∀ step ∈ steps, ∀ log ∈ step.logs, log.number ≠ number) (ids : List ProgramId) :
    Sparing World.files path number (h.runAll run steps ids) := by
  refine .mapM (fun id => .bind ?_ fun _ => .pure _) ids
  induction steps with
  | nil => exact .pure _
  | cons step steps ih =>
    obtain ⟨hHead, hTail⟩ := List.forall_mem_cons.mp hLogs
    exact .bind (sparing_runStep hPath hRun id hHead) fun _ => .bind (ih hTail) fun _ => .pure _

theorem mem_skipped_iff {workflow : Workflow} {reports : List (ProgramId × StepReport)}
    {e : ProgramId × Skip} :
    e ∈ (BatchSummary.of h.runName workflow reports).skipped ↔
      e ∈ reports.flatMap fun r => r.2.skips.map (r.1, ·) := by
  simp only [BatchSummary.of, List.mem_flatMap, List.mem_mergeSort]

def skipEntries (workflow : Workflow) (skipped : List (ProgramId × Skip)) : List Skip.Entry :=
  skipped.map fun e => ⟨e.1, workflow.name, e.2⟩

theorem exists_gives_recordSkips (skips : Log) (workflow : Workflow) (skipped : List (ProgramId × Skip))
    (w : World σ) : ∃ w', Gives (recordSkips skips workflow skipped) w ⟨⟩ w' := by
  induction skipped generalizing w with
  | nil => exact ⟨w, Gives.forM_nil_iff.mpr rfl⟩
  | cons e skipped ih =>
    obtain ⟨log, fs, hFirst⟩ :=
      Log.exists_gives_append skips w.files (Skip.Entry.mk e.1 workflow.name e.2).toJson
    obtain ⟨w', hRest⟩ := ih { w with files := fs }
    refine ⟨w', Gives.forM_cons_iff.mpr ⟨_, ?_, hRest⟩⟩
    exact Gives.bind_iff.mpr ⟨log, _, gives_ofStore_iff.mpr ⟨fs, hFirst, rfl⟩,
      Gives.pure_iff.mpr ⟨rfl, rfl⟩⟩

theorem stores_recordSkips {skips : Log} {workflow : Workflow} {skipped : List (ProgramId × Skip)}
    {old : Bytes} (hPosition : skips.position = none) (hStores : w.files.Stores path skips.number old)
    (hRecord : Gives (recordSkips skips workflow skipped) w ⟨⟩ w') :
    w'.files.Stores path skips.number
      (old ++ ((skipEntries workflow skipped).map Skip.Entry.toJson).flatMap Log.line) := by
  induction skipped generalizing w old with
  | nil =>
    obtain rfl := Gives.forM_nil_iff.mp hRecord
    simpa [skipEntries] using hStores
  | cons e skipped ih =>
    obtain ⟨w₁, hFirst, hRest⟩ := Gives.forM_cons_iff.mp hRecord
    simp only [Gives.bind_iff, gives_ofStore_iff, Gives.pure_iff] at hFirst
    obtain ⟨log, _, ⟨fs, hAppend, rfl⟩, -, rfl⟩ := hFirst
    obtain ⟨rfl, -, -⟩ :=
      Log.gives_append_end hStores.content_eq (Log.atEnd_of_none hPosition old) hAppend
    have hEnd := ih (hStores.setContent _) hRest
    rw [List.append_assoc] at hEnd
    exact hEnd

theorem sparing_recordSkips {skips : Log} (hNumber : skips.number ≠ number) (workflow : Workflow)
    (skipped : List (ProgramId × Skip)) :
    Sparing World.files path number (recordSkips skips workflow skipped : HarnessAction σ Unit) :=
  .forM fun _ _ => .bind (sparing_append hNumber _) fun _ => .pure _

section Outcome

variable {workflow : Workflow} {skips : Log} {w₀ : World σ}
  (hSkips : Gives (h.openLog skipLog) w skips w₀)
  (hSteps : Gives (workflow.steps.mapM h.openStep) w₀ steps w₁)

include hSkips hSteps

/-- A batch that comes to its end has taken all steps and has written down what was skipped. -/
theorem gives_of_runWorkflow {summary : BatchSummary}
    (hBatch : Gives (h.runWorkflow run workflow ids) w summary w') :
    ∃ reports w₂, Gives (h.runAll run steps ids) w₁ reports w₂ ∧
      summary = .of h.runName workflow reports ∧
      Gives (recordSkips skips workflow summary.skipped) w₂ ⟨⟩ w' := by
  rw [runWorkflow_eq] at hBatch
  simp only [Gives.bind_iff, Gives.pure_iff] at hBatch
  obtain ⟨_, _, hSkips', _, _, hSteps', reports, w₂, hReports, _, _, hRecord, rfl, rfl⟩ := hBatch
  rw [Gives, hSkips] at hSkips'
  cases hSkips'
  rw [Gives, hSteps] at hSteps'
  cases hSteps'
  exact ⟨reports, w₂, hReports, rfl, hRecord⟩

theorem exists_gives_runWorkflow {reports : List (ProgramId × StepReport)}
    (hReports : Gives (h.runAll run steps ids) w₁ reports w₂) :
    ∃ w', Gives (h.runWorkflow run workflow ids) w (.of h.runName workflow reports) w' := by
  obtain ⟨w', hRecord⟩ := exists_gives_recordSkips skips workflow
    (BatchSummary.of h.runName workflow reports).skipped w₂
  rw [runWorkflow_eq]
  simp only [Gives.bind_iff, Gives.pure_iff]
  exact ⟨w', skips, w₀, hSkips, steps, w₁, hSteps, reports, w₂, hReports, ⟨⟩, w', hRecord, rfl, rfl⟩

/-- A batch breaks off in one of its steps only. -/
theorem fails_of_runWorkflow {e : HarnessError}
    (hBatch : Fails (h.runWorkflow run workflow ids) w e w') :
    Fails (h.runAll run steps ids) w₁ e w' := by
  rw [runWorkflow_eq] at hBatch
  have hAfterSkips := hBatch.of_gives_bind hSkips
  have hAfterSteps := hAfterSkips.of_gives_bind hSteps
  rcases hAfterSteps.of_bind with hFails | ⟨reports, w₂, -, hFails⟩
  · exact hFails
  · -- Once all steps are taken, nothing can fail any more.
    obtain ⟨w₃, hRecord⟩ := exists_gives_recordSkips skips workflow
      (BatchSummary.of h.runName workflow reports).skipped w₂
    have hEnd := hFails.of_gives_bind hRecord
    cases hEnd

end Outcome

/-! ## Opening the logs -/

/-- The logs of runs and samples. -/
def runLogs : List String := [fullLog, timingLog, targetedLog, fuzzLog, coverageLog]

theorem plainName_log {name : String} (hName : name ∈ skipLog :: runLogs) : Files.PlainName name := by
  have hAll : ∀ s ∈ skipLog :: runLogs, s ≠ "" ∧ s ≠ "." ∧ s ≠ ".." ∧ '/' ∉ s.toList := by decide
  obtain ⟨hBlank, hPoint, hPoints, hSlash⟩ := hAll name hName
  exact ⟨hBlank, hPoint, hPoints, hSlash⟩

theorem reserved_logPath (h : Harness) {name : String} (hName : name ∈ skipLog :: runLogs) :
    Reserved (h.config.logPath name) := by
  have hAll : ∀ s ∈ skipLog :: runLogs, s ≠ CacheStore.blobName ∧ s ≠ CacheStore.metaName ∧
      s.toList.getLast? ≠ some 'f' := by decide
  obtain ⟨hBlob, hMeta, hDiff⟩ := hAll name hName
  exact reserved_join _ (plainName_log hName) hBlob hMeta hDiff

/-- The log of this name is open, and lines are added behind what it holds. -/
structure Opened (h : Harness) (fs : Files) (name : String) (log : Log) : Prop where
  position : log.position = none
  stored : ∃ bytes, fs.Stores (h.config.logPath name) log.number bytes

namespace Opened

variable {fs fs' : Files} {name name' : String} {log log' : Log}

theorem grow (hOpened : Opened h fs name log) (hGrows : Files.Grows fs fs') :
    Opened h fs' name log := by
  obtain ⟨bytes, hStores⟩ := hOpened.stored
  exact ⟨hOpened.position, bytes, hGrows.spares bytes hStores⟩

theorem number_ne (hSound : fs.Sound) (hName : name ∈ skipLog :: runLogs)
    (hName' : name' ∈ skipLog :: runLogs) (hNe : name ≠ name') (hOpened : Opened h fs name log)
    (hOpened' : Opened h fs name' log') : log.number ≠ log'.number := by
  obtain ⟨_, hStores⟩ := hOpened.stored
  obtain ⟨_, hStores'⟩ := hOpened'.stored
  exact hSound.number_ne ⟨_, name, _, name', rfl, rfl, plainName_log hName, plainName_log hName', hNe⟩
    hStores hStores'

theorem stores_of_read {bytes : Bytes} (hOpened : Opened h fs name log)
    (hRead : fs.read (h.config.logPath name) = .ok bytes) :
    fs.Stores (h.config.logPath name) log.number bytes := by
  obtain ⟨held, hStores⟩ := hOpened.stored
  rw [hStores.read] at hRead
  cases hRead
  exact hStores

end Opened

theorem gives_openLog {name : String} {log : Log} (hSound : w.files.Sound)
    (hOpen : Gives (h.openLog name) w log w') :
    w'.files.Sound ∧ Files.Grows w.files w'.files ∧ Opened h w'.files name log := by
  obtain ⟨fs, hAttach, rfl⟩ := gives_ofStore_iff.mp hOpen
  obtain ⟨hSound', hStored⟩ := Log.sound_attach hSound hAttach
  exact ⟨hSound', Log.grows_attach hAttach, (Log.gives_attach hAttach).1, hStored⟩

theorem gives_openStep {step : Step} {opened : OpenStep} (hSound : w.files.Sound)
    (hOpen : Gives (h.openStep step) w opened w') :
    w'.files.Sound ∧ Files.Grows w.files w'.files ∧
      ∀ log ∈ opened.logs, ∃ name ∈ runLogs, Opened h w'.files name log := by
  cases step with
  | fuzz =>
    simp only [openStep, Gives.bind_iff, Gives.pure_iff] at hOpen
    obtain ⟨coverage, w₁, hCoverage, log, _, hLog, rfl, rfl⟩ := hOpen
    obtain ⟨hSound₁, hGrows₁, hOpened₁⟩ := gives_openLog hSound hCoverage
    obtain ⟨hSound₂, hGrows₂, hOpened₂⟩ := gives_openLog hSound₁ hLog
    refine ⟨hSound₂, hGrows₁.trans hGrows₂, ?_⟩
    simp only [OpenStep.logs, List.forall_mem_cons]
    exact ⟨⟨fuzzLog, by decide, hOpened₂⟩, ⟨coverageLog, by decide, hOpened₁.grow hGrows₂⟩,
      List.forall_mem_nil _⟩
  | full | timing | targeted =>
    simp only [openStep, Gives.bind_iff, Gives.pure_iff] at hOpen
    obtain ⟨log, _, hLog, rfl, rfl⟩ := hOpen
    obtain ⟨hSound', hGrows, hOpened⟩ := gives_openLog hSound hLog
    refine ⟨hSound', hGrows, ?_⟩
    simp only [OpenStep.logs, List.forall_mem_cons]
    exact ⟨⟨_, by decide, hOpened⟩, List.forall_mem_nil _⟩

theorem gives_openSteps {plan : List Step} (hSound : w.files.Sound)
    (hOpen : Gives (plan.mapM h.openStep) w steps w') :
    w'.files.Sound ∧ Files.Grows w.files w'.files ∧
      ∀ step ∈ steps, ∀ log ∈ step.logs, ∃ name ∈ runLogs, Opened h w'.files name log := by
  induction plan generalizing w steps with
  | nil =>
    obtain ⟨rfl, rfl⟩ := Gives.mapM_nil_iff.mp hOpen
    exact ⟨hSound, .refl _, nofun⟩
  | cons step plan ih =>
    obtain ⟨opened, w₁, rest, hFirst, hRest, rfl⟩ := Gives.mapM_cons_iff.mp hOpen
    obtain ⟨hSound₁, hGrows₁, hOpened₁⟩ := gives_openStep hSound hFirst
    obtain ⟨hSound₂, hGrows₂, hOpened₂⟩ := ih hSound₁ hRest
    refine ⟨hSound₂, hGrows₁.trans hGrows₂, List.forall_mem_cons.mpr ⟨?_, hOpened₂⟩⟩
    intro log hLog
    obtain ⟨name, hName, hOpened⟩ := hOpened₁ log hLog
    exact ⟨name, hName, hOpened.grow hGrows₂⟩

theorem gives_openSteps_experiment2_iff :
    Gives (Workflow.experiment2.steps.mapM h.openStep) w steps w' ↔
      ∃ full targeted w₁, Gives (h.openLog fullLog) w full w₁ ∧
        Gives (h.openLog targetedLog) w₁ targeted w' ∧ steps = [.full full, .targeted targeted] := by
  simp only [Workflow.steps, Gives.mapM_cons_iff, Gives.mapM_nil_iff, openStep, Gives.bind_iff,
    Gives.pure_iff]
  constructor
  · rintro ⟨_, _, _, ⟨full, w₁, hFull, rfl, rfl⟩, ⟨_, _, _, ⟨targeted, _, hTargeted, rfl, rfl⟩,
      ⟨rfl, rfl⟩, rfl⟩, rfl⟩
    exact ⟨full, targeted, w₁, hFull, hTargeted, rfl⟩
  · rintro ⟨full, targeted, w₁, hFull, hTargeted, rfl⟩
    exact ⟨_, w₁, _, ⟨full, w₁, hFull, rfl, rfl⟩,
      ⟨_, w', _, ⟨targeted, w', hTargeted, rfl, rfl⟩, ⟨rfl, rfl⟩, rfl⟩, rfl⟩

/-- When all logs are open, that of the skips is none of those that steps write to. -/
theorem gives_openAll {workflow : Workflow} {skips : Log} {w₀ : World σ} (hSound : w.files.Sound)
    (hSkips : Gives (h.openLog skipLog) w skips w₀)
    (hSteps : Gives (workflow.steps.mapM h.openStep) w₀ steps w₁) :
    w₁.files.Sound ∧ Opened h w₁.files skipLog skips ∧
      ∀ step ∈ steps, ∀ log ∈ step.logs, log.number ≠ skips.number := by
  obtain ⟨hSound₀, -, hOpened₀⟩ := gives_openLog hSound hSkips
  obtain ⟨hSound₁, hGrows, hOpened⟩ := gives_openSteps hSound₀ hSteps
  have hOpened₁ := hOpened₀.grow hGrows
  refine ⟨hSound₁, hOpened₁, fun step hStep log hLog => ?_⟩
  obtain ⟨name, hName, hLogOpened⟩ := hOpened step hStep log hLog
  have hNe : ∀ s ∈ runLogs, s ≠ skipLog := by decide
  exact Opened.number_ne hSound₁ (List.mem_cons_of_mem _ hName) List.mem_cons_self (hNe name hName)
    hLogOpened hOpened₁

end Harness

end Reanalysis
