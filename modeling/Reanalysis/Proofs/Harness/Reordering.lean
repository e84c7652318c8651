import Reanalysis.Proofs.Harness.Exploration

/-!
# Steps in any order

What the files hold after steps depends on the programs whose full steps have been taken, and not on the order
of the steps. The same holds for the runs that are recorded.
-/

namespace Reanalysis

open Files (Location)
open CacheStore

/-! ## Plans -/

/-- A full step takes its program to the front. A targeted step is for a program that is there. -/
inductive Moves (front : List ProgramId) : ProgramId × OpenStep → List ProgramId → Prop
  | full (id : ProgramId) (log : Log) : Moves front (id, .full log) (front ++ [id])
  | targeted {id : ProgramId} (log : Log) (hId : id ∈ front) : Moves front (id, .targeted log) front

inductive Advances : List ProgramId → List (ProgramId × OpenStep) → List ProgramId → Prop
  | nil (front : List ProgramId) : Advances front [] front
  | cons {front front₁ front' : List ProgramId} {p : ProgramId × OpenStep}
      {plan : List (ProgramId × OpenStep)} (hStep : Moves front p front₁) (hRest : Advances front₁ plan front') :
      Advances front (p :: plan) front'

namespace Advances

variable (full targeted : Log)

theorem schedule_full (front ids : List ProgramId) :
    Advances front (schedule ids [.full full]) (front ++ ids) := by
  induction ids generalizing front with
  | nil => simpa [schedule] using nil front
  | cons id ids ih =>
    refine .cons (.full id full) ?_
    have hRest := ih (front ++ [id])
    rwa [List.append_assoc] at hRest

theorem schedule_targeted {front ids : List ProgramId} (hIds : ∀ id ∈ ids, id ∈ front) :
    Advances front (schedule ids [.targeted targeted]) front := by
  induction ids with
  | nil => exact nil front
  | cons id ids ih =>
    obtain ⟨hHead, hTail⟩ := List.forall_mem_cons.mp hIds
    exact .cons (.targeted targeted hHead) (ih hTail)

theorem schedule_both (front ids : List ProgramId) :
    Advances front (schedule ids [.full full, .targeted targeted]) (front ++ ids) := by
  induction ids generalizing front with
  | nil => simpa [schedule] using nil front
  | cons id ids ih =>
    refine .cons (.full id full) (.cons (.targeted targeted (by simp)) ?_)
    have hRest := ih (front ++ [id])
    rwa [List.append_assoc] at hRest

end Advances

/-! ## The parts of a batch -/

namespace Harness

variable {σ : Type} {h h' : Harness} {run : Runner σ} {w w' : World σ} {steps : List OpenStep}

theorem filesOnly_recordSkips (skips : Log) (workflow : Workflow) (skipped : List (ProgramId × Skip)) :
    FilesOnly (recordSkips skips workflow skipped : HarnessAction σ Unit) :=
  Within.forM (R := fun w w' : World σ => w'.engine = w.engine) (fun _ => rfl)
    (fun _ _ _ hFirst hNext => hNext.trans hFirst)
    (fun _ => (filesOnly_ofStore _).bind fun _ _ => rfl) skipped

theorem gives_openSteps_full_iff :
    Gives (Workflow.full.steps.mapM h.openStep) w steps w' ↔
      ∃ full, Gives (h.openLog fullLog) w full w' ∧ steps = [.full full] := by
  simp only [Workflow.steps, Gives.mapM_cons_iff, Gives.mapM_nil_iff, openStep, Gives.bind_iff,
    Gives.pure_iff]
  constructor
  · rintro ⟨_, _, _, ⟨full, _, hFull, rfl, rfl⟩, ⟨rfl, rfl⟩, rfl⟩
    exact ⟨full, hFull, rfl⟩
  · rintro ⟨full, hFull, rfl⟩
    exact ⟨_, w', _, ⟨full, w', hFull, rfl, rfl⟩, ⟨rfl, rfl⟩, rfl⟩

theorem gives_openSteps_targeted_iff :
    Gives (Workflow.targeted.steps.mapM h.openStep) w steps w' ↔
      ∃ targeted, Gives (h.openLog targetedLog) w targeted w' ∧ steps = [.targeted targeted] := by
  simp only [Workflow.steps, Gives.mapM_cons_iff, Gives.mapM_nil_iff, openStep, Gives.bind_iff,
    Gives.pure_iff]
  constructor
  · rintro ⟨_, _, _, ⟨targeted, _, hTargeted, rfl, rfl⟩, ⟨rfl, rfl⟩, rfl⟩
    exact ⟨targeted, hTargeted, rfl⟩
  · rintro ⟨targeted, hTargeted, rfl⟩
    exact ⟨_, w', _, ⟨targeted, w', hTargeted, rfl, rfl⟩, ⟨rfl, rfl⟩, rfl⟩

theorem runStep_atTime (hConfig : h'.config = h.config) (id : ProgramId) (step : OpenStep) :
    (h.atTime h'.now).runStep run id step = h'.runStep run id step := by
  obtain ⟨config, runName, now⟩ := h'
  obtain rfl : config = h.config := hConfig
  cases step with
  | full | timing => rfl
  | targeted log =>
    have hStore : (h.atTime now).store = (Harness.mk h.config runName now).store := rfl
    have hDiffer : (h.atTime now).runDiffer run = (Harness.mk h.config runName now).runDiffer run := rfl
    simp only [runStep, targetedStep, extractDiff, usableState, hStore, hDiffer]
    rfl
  | fuzz log coverage =>
    have hBudgets : ∀ harness budgets, (h.atTime now).fuzzBudgets run log coverage id harness budgets =
        (Harness.mk h.config runName now).fuzzBudgets run log coverage id harness budgets := by
      intro harness budgets
      induction budgets with
      | nil => rfl
      | cons budget budgets ih =>
        rw [fuzzBudgets, fuzzBudgets, ih]
        rfl
    simp only [runStep, fuzzStep, hBudgets]
    rfl

theorem Performs.atTime (hConfig : h'.config = h.config) {ts : List StepTaken}
    (hAll : Performs h' run w ts w') : Performs (h.atTime h'.now) run w ts w' := by
  induction hAll with
  | nil w => exact .nil w
  | cons hStep _ ih =>
    rw [← runStep_atTime hConfig] at hStep
    exact .cons hStep ih

/-- What a batch does depends on the configuration and on the time. -/
theorem exists_of_runWorkflow {workflow : Workflow} {ids : List ProgramId} {summary : BatchSummary}
    (hConfig : h'.config = h.config) (hBatch : Gives (h'.runWorkflow run workflow ids) w summary w') :
    ∃ skips w₀ steps w₁ ts w₂, Gives (h.openLog skipLog) w skips w₀ ∧
      Gives (workflow.steps.mapM h.openStep) w₀ steps w₁ ∧ ts.map StepTaken.plan = schedule ids steps ∧
      Performs (h.atTime h'.now) run w₁ ts w₂ ∧
      Gives (recordSkips skips workflow summary.skipped) w₂ ⟨⟩ w' := by
  rw [runWorkflow_eq] at hBatch
  simp only [Gives.bind_iff, Gives.pure_iff] at hBatch
  obtain ⟨skips, w₀, hSkips, steps, w₁, hSteps, reports, w₂, hReports, _, _, hRecord, rfl, rfl⟩ := hBatch
  obtain ⟨ts, hPlan, hAll, -⟩ := performs_of_runAll hReports
  have hLog : ∀ name, h'.openLog name = (h.openLog name : HarnessAction σ Log) := by
    intro name
    rw [openLog, openLog, hConfig]
  have hStep : h'.openStep = (h.openStep : Step → HarnessAction σ OpenStep) := by
    funext step
    cases step <;> simp only [openStep, hLog]
  exact ⟨skips, w₀, steps, w₁, ts, w₂, hLog skipLog ▸ hSkips, hStep ▸ hSteps, hPlan, hAll.atTime hConfig, hRecord⟩

end Harness

namespace Setting

variable {S : Setting} {id : ProgramId} {runs : List Run} {opened : List String} {front front' : List ProgramId}
  {u u' : Files} {name : String} {log : Log}

/-! ## The runs of a plan -/

open Classical in
variable (S) in
noncomputable def fullRunsOf (id : ProgramId) : List Run :=
  if h : ∃ runs, S.FullRuns id runs then h.choose else []

open Classical in
variable (S) in
noncomputable def targetedRunsOf (id : ProgramId) : List Run :=
  if h : ∃ runs, S.TargetedRuns id runs then h.choose else []

theorem FullRuns.eq (h : S.FullRuns id runs) : runs = S.fullRunsOf id := by
  have hSome : ∃ runs, S.FullRuns id runs := ⟨runs, h⟩
  rw [fullRunsOf, dif_pos hSome]
  exact h.unique hSome.choose_spec

theorem TargetedRuns.eq (h : S.TargetedRuns id runs) : runs = S.targetedRunsOf id := by
  have hSome : ∃ runs, S.TargetedRuns id runs := ⟨runs, h⟩
  rw [targetedRunsOf, dif_pos hSome]
  exact h.unique hSome.choose_spec

variable (S) in
/-- The runs of a planned step that go to the file with this number. -/
noncomputable def runsOf (number : Nat) (p : ProgramId × OpenStep) : List Run :=
  match p.2 with
  | .full log => if log.number = number then S.fullRunsOf p.1 else []
  | .targeted log => if log.number = number then S.targetedRunsOf p.1 else []
  | _ => []

theorem runsOf_schedule_full (ids : List ProgramId) (full : Log) :
    (schedule ids [.full full]).flatMap (S.runsOf full.number) = ids.flatMap S.fullRunsOf := by
  simp [schedule, List.flatMap_assoc, runsOf]

theorem runsOf_schedule_targeted (ids : List ProgramId) (targeted : Log) :
    (schedule ids [.targeted targeted]).flatMap (S.runsOf targeted.number) =
      ids.flatMap S.targetedRunsOf := by
  simp [schedule, List.flatMap_assoc, runsOf]

theorem runsOf_schedule_other (ids : List ProgramId) {targeted : Log} {number : Nat}
    (hNumber : targeted.number ≠ number) : (schedule ids [.targeted targeted]).flatMap (S.runsOf number) = [] := by
  simp [schedule, List.flatMap_assoc, runsOf, hNumber]

section Both

variable {full targeted : Log} (hNumber : full.number ≠ targeted.number) (ids : List ProgramId)

include hNumber

theorem runsOf_schedule_both_full :
    (schedule ids [.full full, .targeted targeted]).flatMap (S.runsOf full.number) =
      ids.flatMap S.fullRunsOf := by
  simp [schedule, List.flatMap_assoc, runsOf, hNumber.symm]

theorem runsOf_schedule_both_targeted :
    (schedule ids [.full full, .targeted targeted]).flatMap (S.runsOf targeted.number) =
      ids.flatMap S.targetedRunsOf := by
  simp [schedule, List.flatMap_assoc, runsOf, hNumber]

end Both

/-! ## Steps one after the other -/

variable (S) in
/-- The logs of the step are among those that have been opened. -/
def Ready (opened : List String) (u : Files) (step : OpenStep) : Prop :=
  ∀ log ∈ step.logs, ∃ name ∈ opened, name ∈ Harness.skipLog :: Harness.runLogs ∧ S.harness.Opened u name log

variable (S) in
/-- Each log has got its runs, listed by the number of its file. -/
def Adds (runs : Nat → List Run) (u u' : Files) : Prop :=
  ∀ name ∈ Harness.skipLog :: Harness.runLogs, ∀ number,
    Files.Adds (S.harness.config.logPath name) number (runs number) u u'

theorem Ready.adds {step : OpenStep} {runs : Nat → List Run} (h : S.Ready opened u step)
    (hAdds : S.Adds runs u u') : S.Ready opened u' step := by
  intro log hLog
  obtain ⟨name, hMem, hName, hOpened⟩ := h log hLog
  obtain ⟨bytes, hStores⟩ := hOpened.stored
  exact ⟨name, hMem, hName, hOpened.position, _, hAdds name hName log.number bytes hStores⟩

section Steps

variable {now : Instant} {engine : Engine} {w w' : World (List Launch)} {report : StepReport}
  {p : ProgramId × OpenStep} {plan : List (ProgramId × OpenStep)} {ts : List StepTaken}

theorem launches_of_step (hMoves : Moves front p front')
    (hRun : Gives ((S.harness.atTime now).runStep engine.runner p.1 p.2) w report w') :
    w.engine <+: w'.engine := by
  cases hMoves with
  | full id log =>
    rcases Harness.gives_fullStep hRun with ⟨-, rfl, -⟩ | ⟨text, command, found, fs₁, outcome, w₂, bytes, -, -,
      -, hLaunch, -, -, -, hNoted⟩
    · exact List.prefix_rfl
    · obtain ⟨after, rfl⟩ := Engine.launch_of_run hLaunch
      rw [hNoted]
      exact List.prefix_append _ _
  | targeted log hId =>
    rcases Harness.exists_of_targetedStep (h := S.harness.atTime now) S.suits.differ hRun with
      ⟨rfl, -⟩ | ⟨-, message, w₁, rfl, -, ⟨-, rfl, -⟩ |
        ⟨-, command, mode, outcome, w₂, bytes, -, hLaunch, -, rfl, -⟩⟩
    · exact List.prefix_rfl
    · exact List.prefix_rfl
    · obtain ⟨after, rfl⟩ := Engine.launch_of_run hLaunch
      exact List.prefix_append _ _

theorem launches_of_performs (hPlan : Advances front (ts.map StepTaken.plan) front')
    (hAll : Harness.Performs (S.harness.atTime now) engine.runner w ts w') : w.engine <+: w'.engine := by
  induction hAll generalizing front with
  | nil w => exact List.prefix_rfl
  | cons hStep _ ih =>
    cases hPlan with
    | cons hMoves hRest => exact (launches_of_step hMoves hStep).trans (ih hRest)

theorem Stage.step (hMoves : Moves front p front') (hStage : S.Stage opened front w.files)
    (hTime : p.2.isFull = true → now.Representable) (hId : p.1 ∈ S.ids)
    (hReady : S.Ready opened w.files p.2) (hLaunches : ∀ l ∈ w'.engine, l ∈ S.launches)
    (hRun : Gives ((S.harness.atTime now).runStep engine.runner p.1 p.2) w report w') :
    S.Stage opened front' w'.files ∧ S.Adds (S.runsOf · p) w.files w'.files := by
  cases hMoves with
  | full id log =>
    obtain ⟨name, hMem, hName, hOpened⟩ := hReady log List.mem_cons_self
    obtain ⟨hStage', hRuns, hRecords⟩ := hStage.full hName hMem hOpened hLaunches (hTime rfl) hId hRun
    rw [hRuns.eq] at hRecords
    exact ⟨hStage', hRecords⟩
  | targeted log hFront =>
    obtain ⟨name, hMem, hName, hOpened⟩ := hReady log List.mem_cons_self
    obtain ⟨hStage', hRuns, hRecords⟩ := hStage.targeted hName hMem hOpened hLaunches hFront hRun
    rw [hRuns.eq] at hRecords
    exact ⟨hStage', hRecords⟩

/-- Whatever the order of a plan, the programs that it has taken to the front decide on the files. -/
theorem Stage.performs (hPlan : Advances front (ts.map StepTaken.plan) front')
    (hAll : Harness.Performs (S.harness.atTime now) engine.runner w ts w')
    (hStage : S.Stage opened front w.files)
    (hTime : ∀ t ∈ ts, t.step.isFull = true → now.Representable) (hIds : ∀ t ∈ ts, t.program ∈ S.ids)
    (hReady : ∀ t ∈ ts, S.Ready opened w.files t.step) (hLaunches : ∀ l ∈ w'.engine, l ∈ S.launches) :
    S.Stage opened front' w'.files ∧
      S.Adds (fun number => (ts.map StepTaken.plan).flatMap (S.runsOf number)) w.files w'.files := by
  induction hAll generalizing front with
  | nil w =>
    cases hPlan
    exact ⟨hStage, fun name _ number => (Files.Spares.refl _ _ _).adds⟩
  | cons hStep hAll ih =>
    cases hPlan with
    | cons hMoves hRest =>
      rw [List.forall_mem_cons] at hTime hIds hReady
      have hNoted := launches_of_performs hRest hAll
      obtain ⟨hStage₁, hAdds⟩ := hStage.step hMoves hTime.1 hIds.1 hReady.1
        (fun l hl => hLaunches l (hNoted.subset hl)) hStep
      obtain ⟨hStage', hAdds'⟩ := ih hRest hStage₁ hTime.2 hIds.2 (fun t ht => (hReady.2 t ht).adds hAdds)
        hLaunches
      exact ⟨hStage', fun name hName number => (hAdds name hName number).trans (hAdds' name hName number)⟩

end Steps

/-! ## Opening logs and noting skips -/

section Logs

variable {number : Nat}

theorem not_touched_log (hName : name ∈ Harness.skipLog :: Harness.runLogs) (hNew : name ∉ opened) :
    ¬ S.Touched opened (S.logs ++ [name]) := by
  have hTaken := Follows.taken_log hName
  rintro (hWritten | hEq | ⟨id, hEq⟩)
  · refine not_written [] S.leads.directory hTaken (hTaken.beside _) (fun log hLog hOld hEq => ?_) hWritten
    exact hNew ((List.append_singleton_inj.mp hEq).2 ▸ hOld)
  · have hAll : ∀ name ∈ Harness.skipLog :: Harness.runLogs, name ≠ "diffs" := by decide
    exact hAll name hName (List.append_singleton_inj.mp hEq).2
  · have hLength := congrArg List.length hEq
    simp at hLength

theorem Follows.contents_log (h : S.Follows opened u) (hName : name ∈ Harness.skipLog :: Harness.runLogs)
    (hNew : name ∉ opened) :
    u.contents? (S.harness.config.logPath name) = S.start.contents? (S.harness.config.logPath name) :=
  congrArg Except.toOption (h.touches.read_join S.leads (Harness.plainName_log hName)
    (not_touched_log hName hNew) S.sound)

theorem Stage.line (h : S.Stage opened front u) (hName : name ∈ Harness.skipLog :: Harness.runLogs)
    (hMem : name ∈ opened) (hOpened : S.harness.Opened u name log) (bytes : Bytes) :
    S.Stage opened front (u.setContent log.number bytes) :=
  ⟨h.toFollows.line hName hMem hOpened bytes, h.balanced.setContent (h.foreign_log hName hOpened) bytes,
    h.noFolder⟩

variable (S) in
/-- The log holds these runs behind what it held in the beginning. -/
def Logged (name : String) (number : Nat) (runs : List Run) (u : Files) : Prop :=
  u.Stores (S.harness.config.logPath name) number
    ((S.start.contents? (S.harness.config.logPath name)).getD [] ++
      (runs.map fun r => r.toEntry.toJson).flatMap Log.line)

theorem Stage.openFile (h : S.Stage opened front u) (hName : name ∈ Harness.skipLog :: Harness.runLogs)
    (hOpen : u.openFile (S.harness.config.logPath name) = .ok (number, u')) :
    S.Stage (name :: opened) front u' ∧
      u'.Stores (S.harness.config.logPath name) number
        ((u.contents? (S.harness.config.logPath name)).getD []) := by
  have hMore : ∀ other ∈ opened, other ∈ name :: opened := fun _ => List.mem_cons_of_mem _
  obtain ⟨bytes, hStores⟩ := h.sound.stores_openFile hOpen
  rcases Files.openFile_cases hOpen with ⟨rfl, -⟩ | ⟨place, hPlace, hFree, -, rfl, rfl⟩
  · refine ⟨⟨h.toFollows.mono hMore, h.balanced, h.noFolder⟩, ?_⟩
    rw [Files.contents?, hStores.read]
    exact hStores
  obtain ⟨dir, hDir, rfl⟩ := Files.exists_leads (Harness.plainName_log hName) hPlace
  obtain rfl : S.logs = dir := Except.ok.inj (h.leads.way.symm.trans hDir.way)
  -- There was no such log, so the new one is empty.
  generalize hNew : (u.stage []).2.setName (S.logs ++ [name]) (.file u.contents.length) = u' at hOpen hStores ⊢
  have hNamed : Files.Named (S.logs ++ [name]) := Files.named_of_ne_directory (by rw [hFree]; simp)
  have hAlters : Files.Alters (· = S.logs ++ [name]) u u' := by
    rw [← hNew]
    exact (Files.Alters.stage []).trans (.setName _ rfl (by change u.node? _ ≠ _; rw [hFree]; simp))
  have hBytes : bytes = [] := by
    have hLast := hStores.2
    rw [← hNew] at hLast
    simpa [Files.setName, Files.stage] using hLast.symm
  have hMissing : u.contents? (S.harness.config.logPath name) = none := by
    have hFind : u.find (S.harness.config.logPath name) = .error .notFound := by
      simp only [Files.find_eq, hPlace, hFree]
    rw [Files.contents?, Files.read, hFind]
    rfl
  have hBalanced := balanced_setLog h.toFollows hName hFree h.balanced hAlters
  refine ⟨⟨?_, hBalanced, fun n hPast => ?_⟩, ?_⟩
  · refine (h.toFollows.mono hMore).change (h.sound.openFile hOpen) hBalanced.tidy_or_vacant
      (hAlters.touches.mono ?_) (.inr fun q hq => ?_)
    · rintro q rfl
      exact .inr (.inr ⟨name, List.mem_cons_self, hName, rfl⟩)
    · rw [← hNew, Files.node?_setName hNamed] at hq
      split at hq
      · cases hq
      · exact hq
  · rw [hAlters.node]
    · exact h.noFolder n hPast
    · intro hEq
      exact ((Follows.taken_log hName).beside S.store).not_entry S.logs (hEq ▸ entry_blob n)
  · rw [hMissing]
    exact hBytes ▸ hStores

variable {σ : Type} {w w' : World σ}

theorem Stage.openLog (h : S.Stage opened front u)
    (hMade : (w.files.makeDirectories S.harness.config.logDir).1 = u)
    (hName : name ∈ Harness.skipLog :: Harness.runLogs) (hOpen : Gives (S.harness.openLog name) w log w') :
    S.Stage (name :: opened) front w'.files ∧ S.harness.Opened w'.files name log ∧ Files.Grows u w'.files ∧
      (name ∉ opened → S.Logged name log.number [] w'.files) := by
  obtain ⟨fs, hAttach, rfl⟩ := HarnessAction.gives_ofStore_iff.mp hOpen
  have hFile := Log.openFile_of_attach (Harness.plainName_log hName) hAttach
  rw [hMade] at hFile
  obtain ⟨hStage, hStores⟩ := h.openFile hName hFile
  refine ⟨hStage, ⟨(Log.gives_attach hAttach).1, _, hStores⟩, Files.grows_openFile hFile, fun hNew => ?_⟩
  rw [h.toFollows.contents_log hName hNew] at hStores
  simpa [Logged] using hStores

theorem Stage.makeDirectories (h : S.Stage opened front u) :
    (u.makeDirectories S.harness.config.logDir).1 = u := by
  cases hFault : Files.fault? S.harness.config.logDir with
  | none => rw [Files.makeDirectories_of_leads h.leads hFault]
  | some fault => rw [Files.makeDirectories, hFault]

theorem Stage.recordSkips {skips : Log} {workflow : Workflow} {skipped : List (ProgramId × Skip)}
    (h : S.Stage opened front w.files) (hMem : Harness.skipLog ∈ opened)
    (hOpened : S.harness.Opened w.files Harness.skipLog skips)
    (hRecord : Gives (Harness.recordSkips skips workflow skipped) w ⟨⟩ w') :
    S.Stage opened front w'.files := by
  induction skipped generalizing w with
  | nil =>
    obtain rfl := Gives.forM_nil_iff.mp hRecord
    exact h
  | cons e skipped ih =>
    obtain ⟨w₁, hFirst, hRest⟩ := Gives.forM_cons_iff.mp hRecord
    simp only [Gives.bind_iff, HarnessAction.gives_ofStore_iff, Gives.pure_iff] at hFirst
    obtain ⟨log, _, ⟨fs, hAppend, rfl⟩, -, rfl⟩ := hFirst
    obtain ⟨bytes, hStores⟩ := hOpened.stored
    obtain ⟨rfl, -, -⟩ :=
      Log.gives_append_end hStores.content_eq (Log.atEnd_of_none hOpened.position bytes) hAppend
    have hEnd := ih (h.line List.mem_cons_self hMem hOpened _)
      ⟨hOpened.position, _, hStores.setContent _⟩ hRest
    exact hEnd

end Logs

/-! ## The beginning -/

theorem Stage.start (S : Setting) : S.Stage [] [] S.start := by
  have hPast : ∀ n, (S.ledger []).past n ↔ S.start.node? (S.store.slotPlace S.root n) = some .directory :=
    fun n => ⟨And.left, fun hSlot => ⟨hSlot, fun _ hMem => absurd hMem List.not_mem_nil⟩⟩
  have hNot : ∀ id state base, ¬ (S.ledger []).keeps id state base :=
    fun _ _ _ hKept => List.not_mem_nil hKept.1
  refine ⟨.refl S [], ?_, fun n hFree hFolder => hFree ((hPast n).mpr (slot_of_below hFolder))⟩
  rcases S.housed with hTidy | hVacant
  · exact .inl (.of_found hTidy hNot hPast)
  · refine .inr ⟨hVacant, hNot, fun n hFound => ?_⟩
    have hSlot := (hPast n).mp hFound
    rw [slotPlace, hVacant.below] at hSlot
    cases hSlot

/-! ## The states in the end -/

section Reading

variable {entry : String} (hEntry : entry = blobName ∨ entry = metaName)

include hEntry

theorem entryName_of : EntryName entry := by
  rcases hEntry with rfl | rfl
  · exact entryName_blob
  · exact entryName_meta

/-- In a slot that no full step has come to, all is as it was. -/
theorem Stage.read_past (h : S.Stage opened front u) {n : Nat} (hPast : (S.ledger front).past n)
    (hIds : ∀ id ∈ S.ids, id ∈ front) :
    u.read (Files.join (S.store.engineDir n) entry) = S.start.read (Files.join (S.store.engineDir n) entry) := by
  have hName := entryName_of hEntry
  have hTidy : S.store.Tidy S.root S.start := by
    refine S.housed.resolve_right fun hVacant => ?_
    have hSlot := hPast.1
    rw [slotPlace, hVacant.below] at hSlot
    cases hSlot
  have hTidy' : S.store.Tidy S.root u :=
    h.housed.resolve_right fun hVacant => hVacant.missing (h.touches.standing _ hTidy.leads.directory)
  by_cases hReach : S.store.Reaches n entry
  · have hOut : ¬ S.Touched opened (S.store.filePlace S.root n entry) := by
      rintro ((hFresh | hSlots | ⟨name, -, hLog, hEq⟩) | hEq | ⟨id, hEq⟩)
      · rcases hFresh with ⟨hWay, -⟩ | ⟨m, rest, hMissing, hEq⟩
        · have hLength := hWay.length_le
          simp [filePlace] at hLength
        · have hNames := List.append_cancel_left hEq
          rw [List.cons.injEq] at hNames
          refine hMissing ?_
          rw [slotPlace, ← hNames.1]
          exact hPast.1
      · obtain ⟨id, hId, hSource, name, -, hEq⟩ := hSlots
        exact hPast.2 id (hIds id hId) hSource (filePlace_inj hEq).1.symm
      · exact ((Follows.taken_log hLog).beside S.store).not_entry S.logs ⟨n, entry, hEntry, hEq.symm⟩
      · exact (Harness.beside_diffs S.store).not_entry S.logs ⟨n, entry, hEntry, hEq.symm⟩
      · exact (Harness.beside_diff S.store id).not_entry S.logs ⟨n, entry, hEntry, hEq.symm⟩
    rw [read_slot hTidy' hName hReach, read_slot hTidy hName hReach, h.touches.node _ hOut]
    rcases hNode : S.start.node? (S.store.filePlace S.root n entry) with _ | ⟨number | -⟩
    · rfl
    · -- The file has kept its number and its contents.
      have hLess := S.sound.bounded _ _ hNode
      obtain ⟨number', hNode', hBytes⟩ :=
        h.touches.held _ _ hOut ⟨number, hNode, List.getElem?_eq_getElem hLess⟩
      rw [h.touches.node _ hOut, hNode] at hNode'
      cases hNode'
      simp only [Files.content, hBytes, List.getElem?_eq_getElem hLess]
    · rfl
  · rw [Files.read, Files.read, find_unreached_eq hTidy' hName hReach, find_unreached_eq hTidy hName hReach]
    rfl

/-- Where nothing is kept, nothing is found, and it fails in the same way whatever the files are. -/
theorem Stage.read_missing (h : S.Stage opened front u) (hPast : ¬ (S.ledger front).past id.number)
    (hNone : ¬ ∃ state base, (S.ledger front).keeps id state base) :
    u.read (Files.join (S.store.engineDir id.number) entry) =
      .error (if S.store.Reaches id.number entry then .notFound
        else (Files.fault? (Files.join (S.store.engineDir id.number) entry)).getD .nameTooLong) := by
  have hName := entryName_of hEntry
  rcases h.balanced with hAcc | ⟨hVacant, -⟩
  · have hNot : ¬ (S.ledger front).Has id.number := fun hHas => hNone ((Ledger.has_number hPast).mp hHas)
    by_cases hReach : S.store.Reaches id.number entry
    · have hFree : u.node? (S.store.filePlace S.root id.number entry) = none := by
        rcases hEntry with rfl | rfl
        · rcases hNode : u.node? (S.store.filePlace S.root id.number blobName) with _ | ⟨number | -⟩
          · rfl
          · exact absurd ((hAcc.blobs _ number hReach hNode).resolve_left not_false) hNot
          · exact absurd hNode (h.noFolder _ hPast)
        · by_contra hThere
          exact hNot (hAcc.sidecars _ hThere)
      rw [read_slot hAcc.tidy hName hReach, hFree, if_pos hReach]
    · rw [Files.read, find_unreached_eq hAcc.tidy hName hReach, if_neg hReach]
      rfl
  · rw [hVacant.read_entry hName]
    cases hFault : Files.fault? (Files.join (S.store.engineDir id.number) entry) with
    | none => rw [if_pos ⟨hFault, hVacant.shortSlots id⟩]; rfl
    | some fault =>
      rw [if_neg]
      · rfl
      · rintro ⟨hReach, -⟩
        rw [hFault] at hReach
        cases hReach

end Reading

/-- The programs at the front decide on what is read of every program. -/
theorem Stage.concurs_read {opened' : List String} (h : S.Stage opened front u) (h' : S.Stage opened' front u')
    (hIds : ∀ id ∈ S.ids, id ∈ front) (id : ProgramId) : Concurs u u' (S.store.read id) := by
  by_cases hKept : ∃ state base, (S.ledger front).keeps id state base
  · obtain ⟨state, base, hKept⟩ := hKept
    exact ⟨_, (h.balanced.read_of_kept hKept).1, (h'.balanced.read_of_kept hKept).1⟩
  have hSame : ∀ entry, entry = blobName ∨ entry = metaName →
      u'.read (Files.join (S.store.engineDir id.number) entry) =
        u.read (Files.join (S.store.engineDir id.number) entry) := by
    intro entry hEntry
    by_cases hPast : (S.ledger front).past id.number
    · rw [h.read_past hEntry hPast hIds, h'.read_past hEntry hPast hIds]
    · rw [h.read_missing hEntry hPast hKept, h'.read_missing hEntry hPast hKept]
  exact CacheStore.concurs_read (hSame metaName (.inr rfl)) (hSame blobName (.inl rfl))

/-! ## Batches -/

section Batch

variable {engine : Engine} {w w' : World (List Launch)}

theorem ready_of_opened {step : OpenStep} (hLogs : step.logs = [log]) (hMem : name ∈ opened)
    (hName : name ∈ Harness.skipLog :: Harness.runLogs) (hOpened : S.harness.Opened u name log) :
    S.Ready opened u step := by
  intro other hOther
  rw [hLogs, List.mem_singleton] at hOther
  exact ⟨name, hMem, hName, hOther ▸ hOpened⟩

theorem Stage.batch {now : Instant} {skips : Log} {steps : List OpenStep} {ts : List StepTaken}
    {w₁ w₂ : World (List Launch)} {workflow : Workflow} {skipped : List (ProgramId × Skip)}
    (h : S.Stage opened front w₁.files) (hMem : Harness.skipLog ∈ opened)
    (hOpened : S.harness.Opened w₁.files Harness.skipLog skips)
    (hReady : ∀ step ∈ steps, S.Ready opened w₁.files step)
    (hTime : ∀ step ∈ steps, step.isFull = true → now.Representable)
    (hAdvances : Advances front (schedule S.ids steps) front')
    (hPlan : ts.map StepTaken.plan = schedule S.ids steps)
    (hAll : Harness.Performs (S.harness.atTime now) engine.runner w₁ ts w₂)
    (hRecord : Gives (Harness.recordSkips skips workflow skipped) w₂ ⟨⟩ w')
    (hLaunches : ∀ l ∈ w'.engine, l ∈ S.launches) :
    S.Stage opened front' w'.files ∧ ∀ name ∈ Harness.skipLog :: Harness.runLogs, ∀ number,
      skips.number ≠ number → ∀ runs, S.Logged name number runs w₁.files →
        S.Logged name number (runs ++ (schedule S.ids steps).flatMap (S.runsOf number)) w'.files := by
  rw [(Harness.filesOnly_recordSkips skips workflow skipped).of_gives hRecord] at hLaunches
  rw [← hPlan] at hAdvances
  have hPlanned := fun t ht => program_mem_of_plan hPlan (t := t) ht
  obtain ⟨hStage, hAdds⟩ := h.performs hAdvances hAll (fun t ht => hTime _ (hPlanned t ht).2)
    (fun t ht => (hPlanned t ht).1) (fun t ht => hReady _ (hPlanned t ht).2) hLaunches
  rw [hPlan] at hAdds
  obtain ⟨bytes, hStores⟩ := hOpened.stored
  have hOpened₂ : S.harness.Opened w₂.files Harness.skipLog skips :=
    ⟨hOpened.position, _, hAdds _ List.mem_cons_self _ _ hStores⟩
  refine ⟨hStage.recordSkips hMem hOpened₂ hRecord, fun name hName number hNumber runs hLogged => ?_⟩
  have hEnd := (Harness.sparing_recordSkips hNumber _ _).of_gives hRecord _ (hAdds name hName number _ hLogged)
  rw [List.append_assoc, ← List.flatMap_append, ← List.map_append] at hEnd
  exact hEnd

variable {h : Harness} {summary : BatchSummary} (hConfig : h.config = S.harness.config)
  (hLaunches : ∀ l ∈ w'.engine, l ∈ S.launches)

include hConfig hLaunches

theorem logged_experiment2 (hStart : (w.files.makeDirectories S.harness.config.logDir).1 = S.start)
    (hTime : h.now.Representable)
    (hBatch : Gives (h.runWorkflow engine.runner .experiment2 S.ids) w summary w') :
    ∃ opened, S.Stage opened S.ids w'.files ∧
      (∃ number, S.Logged Harness.fullLog number (S.ids.flatMap S.fullRunsOf) w'.files) ∧
      ∃ number, S.Logged Harness.targetedLog number (S.ids.flatMap S.targetedRunsOf) w'.files := by
  obtain ⟨skips, w₀, steps, w₁, ts, w₂, hSkips, hSteps, hPlan, hAll, hRecord⟩ :=
    Harness.exists_of_runWorkflow hConfig hBatch
  obtain ⟨full, targeted, w₃, hFull, hTargeted, rfl⟩ := Harness.gives_openSteps_experiment2_iff.mp hSteps
  obtain ⟨hStage₀, hOpened₀, -, -⟩ := (Stage.start S).openLog hStart (by decide) hSkips
  obtain ⟨hStage₃, hOpened₃, hGrows₃, hLogged₃⟩ := hStage₀.openLog hStage₀.makeDirectories (by decide) hFull
  obtain ⟨hStage₁, hOpened₁, hGrows₁, hLogged₁⟩ := hStage₃.openLog hStage₃.makeDirectories (by decide) hTargeted
  have hOpened₀ := hOpened₀.grow (hGrows₃.trans hGrows₁)
  have hOpened₃ := hOpened₃.grow hGrows₁
  have hNumber := hOpened₀.number_ne hStage₁.sound (by decide) (by decide) (by decide) hOpened₃
  have hNumber' := hOpened₀.number_ne hStage₁.sound (by decide) (by decide) (by decide) hOpened₁
  have hNumbers := hOpened₃.number_ne hStage₁.sound (by decide) (by decide) (by decide) hOpened₁
  obtain ⟨hStage, hLogged⟩ := hStage₁.batch (by decide) hOpened₀ (List.forall_mem_cons.mpr
    ⟨ready_of_opened rfl (by decide) (by decide) hOpened₃, List.forall_mem_singleton.mpr
      (ready_of_opened rfl (by decide) (by decide) hOpened₁)⟩) (fun _ _ _ => hTime)
    (.schedule_both full targeted [] S.ids) hPlan hAll hRecord hLaunches
  refine ⟨_, hStage, ⟨full.number, ?_⟩, targeted.number, ?_⟩
  · have hEnd := hLogged _ (by decide) _ hNumber [] (hGrows₁.spares _ (hLogged₃ (by decide)))
    rwa [runsOf_schedule_both_full hNumbers] at hEnd
  · have hEnd := hLogged _ (by decide) _ hNumber' [] (hLogged₁ (by decide))
    rwa [runsOf_schedule_both_targeted hNumbers] at hEnd

theorem logged_full (hStart : (w.files.makeDirectories S.harness.config.logDir).1 = S.start)
    (hTime : h.now.Representable) (hBatch : Gives (h.runWorkflow engine.runner .full S.ids) w summary w') :
    S.Stage [Harness.fullLog, Harness.skipLog] S.ids w'.files ∧
      ∃ number, S.Logged Harness.fullLog number (S.ids.flatMap S.fullRunsOf) w'.files := by
  obtain ⟨skips, w₀, steps, w₁, ts, w₂, hSkips, hSteps, hPlan, hAll, hRecord⟩ :=
    Harness.exists_of_runWorkflow hConfig hBatch
  obtain ⟨full, hFull, rfl⟩ := Harness.gives_openSteps_full_iff.mp hSteps
  obtain ⟨hStage₀, hOpened₀, -, -⟩ := (Stage.start S).openLog hStart (by decide) hSkips
  obtain ⟨hStage₁, hOpened₁, hGrows₁, hLogged₁⟩ := hStage₀.openLog hStage₀.makeDirectories (by decide) hFull
  have hOpened₀ := hOpened₀.grow hGrows₁
  have hNumber := hOpened₀.number_ne hStage₁.sound (by decide) (by decide) (by decide) hOpened₁
  obtain ⟨hStage, hLogged⟩ := hStage₁.batch (by decide) hOpened₀ (List.forall_mem_singleton.mpr
    (ready_of_opened rfl (by decide) (by decide) hOpened₁)) (fun _ _ _ => hTime)
    (.schedule_full full [] S.ids) hPlan hAll hRecord hLaunches
  refine ⟨hStage, full.number, ?_⟩
  have hEnd := hLogged _ (by decide) _ hNumber [] (hLogged₁ (by decide))
  rwa [runsOf_schedule_full] at hEnd

theorem logged_targeted {number : Nat} {runs : List Run}
    (hBefore : S.Stage [Harness.fullLog, Harness.skipLog] S.ids w.files)
    (hRuns : S.Logged Harness.fullLog number runs w.files)
    (hBatch : Gives (h.runWorkflow engine.runner .targeted S.ids) w summary w') :
    ∃ opened, S.Stage opened S.ids w'.files ∧ (∃ number, S.Logged Harness.fullLog number runs w'.files) ∧
      ∃ number, S.Logged Harness.targetedLog number (S.ids.flatMap S.targetedRunsOf) w'.files := by
  obtain ⟨skips, w₀, steps, w₁, ts, w₂, hSkips, hSteps, hPlan, hAll, hRecord⟩ :=
    Harness.exists_of_runWorkflow hConfig hBatch
  obtain ⟨targeted, hTargeted, rfl⟩ := Harness.gives_openSteps_targeted_iff.mp hSteps
  obtain ⟨hStage₀, hOpened₀, hGrows₀, -⟩ := hBefore.openLog hBefore.makeDirectories (by decide) hSkips
  obtain ⟨hStage₁, hOpened₁, hGrows₁, hLogged₁⟩ := hStage₀.openLog hStage₀.makeDirectories (by decide) hTargeted
  have hOpened₀ := hOpened₀.grow hGrows₁
  have hRuns₁ : S.Logged Harness.fullLog number runs w₁.files := (hGrows₀.trans hGrows₁).spares _ hRuns
  have hOpenedFull : S.harness.Opened w₁.files Harness.fullLog ⟨S.harness.config.logPath Harness.fullLog, number,
    none⟩ := ⟨rfl, _, hRuns₁⟩
  have hNumber := hOpened₀.number_ne hStage₁.sound (by decide) (by decide) (by decide) hOpened₁
  have hNumberFull := hOpened₀.number_ne hStage₁.sound (by decide) (by decide) (by decide) hOpenedFull
  have hNumbers := hOpened₁.number_ne hStage₁.sound (by decide) (by decide) (by decide) hOpenedFull
  have hNoFull : ∀ step ∈ [OpenStep.targeted targeted], step.isFull = true → h.now.Representable :=
    List.forall_mem_singleton.mpr fun hFull => absurd hFull Bool.false_ne_true
  obtain ⟨hStage, hLogged⟩ := hStage₁.batch (by decide) hOpened₀ (List.forall_mem_singleton.mpr
    (ready_of_opened rfl (by decide) (by decide) hOpened₁)) hNoFull
    (.schedule_targeted targeted fun _ hId => hId) hPlan hAll hRecord hLaunches
  refine ⟨_, hStage, ⟨number, ?_⟩, targeted.number, ?_⟩
  · have hEnd := hLogged _ (by decide) _ hNumberFull runs hRuns₁
    rwa [runsOf_schedule_other _ hNumbers, List.append_nil] at hEnd
  · have hEnd := hLogged _ (by decide) _ hNumber [] (hLogged₁ (by decide))
    rwa [runsOf_schedule_targeted] at hEnd

end Batch

end Setting

end Reanalysis
