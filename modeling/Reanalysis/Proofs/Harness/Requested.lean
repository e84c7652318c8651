import Mathlib.Data.List.Nodup
import Reanalysis.Proofs.Harness.Lines
import Reanalysis.Proofs.Harness.Skipped
import Reanalysis.Proofs.Report.Accounts

/-!
# Requested programs in the comparison

After a batch of full and targeted steps over empty logs, the comparison that is made from the logs
accounts for a requested program exactly if its source was there at its turn. A program without a source
has no run, and a skip for a missing source is no reason to drop it.
-/

namespace Reanalysis

open Files (Location)

/-! ## Runs that can be read back -/

/-- The outcome has a code of 32 bits, and its seconds read back as they should. -/
structure Outcome.Readable (o : Outcome) : Prop where
  code : ∀ code, o.exit = .exited code → -0x80000000 ≤ code ∧ code < 0x80000000
  seconds : Json.Faithful (Run.elapsed o.elapsed.toSeconds)

theorem Outcome.Readable.storable {o : Outcome} (h : o.Readable) (id : ProgramId) (mode : Mode) :
    (o.toRun id mode none).Storable := by
  rcases o with ⟨exit, elapsed, stdout, stderr⟩
  cases exit with
  | exited code =>
    exact (Run.Built.completed id mode _ (h.code code rfl)).storable ⟨h.seconds, nofun⟩
  | timedOut => exact (Run.Built.timedOut id mode _).storable ⟨h.seconds, nofun⟩
  | launchFailed message => exact (Run.Built.launchFailed id mode _).storable ⟨h.seconds, nofun⟩

theorem Log.gives_readRuns {fs : Files} {path : Location} {number : Nat} {runs : List Run}
    (fallback : Mode) (hRuns : ∀ r ∈ runs, r.Storable)
    (hStores : fs.Stores path number ((runs.map fun r => r.toEntry.toJson).flatMap line)) :
    ∃ contents, Gives (readRuns path fallback) fs contents fs ∧
      contents.records.map Run.program = runs.map Run.program := by
  obtain ⟨records, hRecalled, hLines⟩ :=
    exists_lines fun r hr => Run.line_toJson (hRuns r hr) fallback
  have hText := hStores.read
  rw [flatMap_line] at hText
  have hRead : Gives (readRuns path fallback) fs (parseLines (parseRun fallback) _) fs :=
    gives_readLines hText
  refine ⟨_, hRead, ?_⟩
  rw [parseLines_lines hLines]
  clear hLines hText hStores hRuns hRead
  induction hRecalled with
  | nil => rfl
  | cons hFirst _ ih => rw [List.map_cons, List.map_cons, hFirst.program, ih]

namespace Harness

open HarnessAction

variable {σ : Type} {h : Harness} {run : Runner σ} {ids front back : List ProgramId} {id : ProgramId}
  {full targeted : Log} {ts : List StepTaken} {w w' : World σ}

/-! ## Turns -/

theorem exists_front {steps : List OpenStep} (hAll : Performs h run w ts w')
    (hPlan : ts.map StepTaken.plan = schedule (front ++ back) steps) :
    ∃ before u, before.map StepTaken.plan = schedule front steps ∧ Performs h run w before u := by
  rw [schedule_append] at hPlan
  obtain ⟨before, rest, rfl, hBefore, -⟩ := List.map_eq_append_iff.mp hPlan
  obtain ⟨u, hFront, -⟩ := hAll.split
  exact ⟨before, u, hBefore, hFront⟩

theorem exists_turn
    (hPlan : ts.map StepTaken.plan = schedule (id :: back) [.full full, .targeted targeted])
    (hAll : Performs h run w ts w') :
    ∃ after first second u u',
      ts = ⟨id, .full full, first⟩ :: ⟨id, .targeted targeted, second⟩ :: after ∧
      after.map StepTaken.plan = schedule back [.full full, .targeted targeted] ∧
      Gives (h.fullStep run full id) w first u ∧ Gives (h.targetedStep run targeted id) u second u' := by
  obtain ⟨⟨_, _, first⟩, rest, rfl, ht, hPlan⟩ := List.map_eq_cons_iff.mp hPlan
  obtain ⟨⟨_, _, second⟩, after, rfl, ht', hAfter⟩ := List.map_eq_cons_iff.mp hPlan
  cases ht
  cases ht'
  cases hAll with
  | cons hFirst hRest =>
    cases hRest with
    | cons hSecond _ => exact ⟨after, first, second, _, _, rfl, hAfter, hFirst, hSecond⟩

section Turns

variable {path : Location} (hPath : Reserved path) (hLeaves : run.LeavesAlone path)
  (hPosition : full.position = none) (hPosition' : targeted.position = none)

include hPath hLeaves hPosition hPosition'

/-- A program is run if its source is there, and is passed over twice if not. -/
theorem turn_cases {before : List StepTaken} {u : World σ} (hIds : (front ++ id :: back).Nodup)
    (hAll : Performs h run w ts w')
    (hPlan : ts.map StepTaken.plan = schedule (front ++ id :: back) [.full full, .targeted targeted])
    (hFront : Performs h run w before u)
    (hBefore : before.map StepTaken.plan = schedule front [.full full, .targeted targeted]) :
    (u.files.isFile (h.corpus.sourcePath id) = true ∧
      ∃ t ∈ ts, t.program = id ∧ t.step = .full full ∧ t.report.runs ≠ []) ∨
    (u.files.isFile (h.corpus.sourcePath id) = false ∧
      ∀ t ∈ ts, t.program = id → t.report = .ofSkip (.missingSource (h.corpus.sourcePath id))) := by
  obtain ⟨rest, rfl, hRest⟩ := hFront.eq_append hAll
    (by rw [hPlan, hBefore, schedule_append]; exact List.prefix_append _ _)
  rw [schedule_append, List.map_append, hBefore, List.append_cancel_left_eq] at hPlan
  obtain ⟨after, first, second, v, v', rfl, hAfter, hFirst, hSecond⟩ := exists_turn hPlan hRest
  rcases fullStep_cases hPosition hLeaves hPath hFirst with
    ⟨hMissing, rfl, rfl⟩ | ⟨hThere, o, -, rfl, -⟩
  · refine .inr ⟨hMissing, fun t ht hProgram => ?_⟩
    have hSkip : second = .ofSkip (.missingSource (h.corpus.sourcePath id)) := by
      rcases targetedStep_cases hPosition' hLeaves hPath hSecond with
        ⟨-, -, hReport⟩ | ⟨hThere, -⟩
      · exact hReport
      · rw [hMissing] at hThere
        cases hThere
    -- No id is requested twice, so all other steps are about other programs.
    rw [List.nodup_middle, List.nodup_cons, List.mem_append, not_or] at hIds
    rcases List.mem_append.mp ht with ht | ht
    · exact absurd (hProgram ▸ (program_mem_of_plan hBefore ht).1) hIds.1.1
    · rcases List.mem_cons.mp ht with rfl | ht
      · rfl
      · rcases List.mem_cons.mp ht with rfl | ht
        · exact hSkip
        · exact absurd (hProgram ▸ (program_mem_of_plan hAfter ht).1) hIds.1.2
  · exact .inl ⟨hThere, _, List.mem_append_right _ List.mem_cons_self, rfl, rfl,
      List.cons_ne_nil _ _⟩

end Turns

/-- The source of the program is there when the steps of all programs before it have been taken. -/
def SourceAtTurn (h : Harness) (run : Runner σ) (steps : List OpenStep) (ids : List ProgramId)
    (w : World σ) (id : ProgramId) : Prop :=
  ∃ front back before u, ids = front ++ id :: back ∧
    before.map StepTaken.plan = schedule front steps ∧ Performs h run w before u ∧
    u.files.isFile (h.corpus.sourcePath id) = true

theorem mem_programs_runsIn {number : Nat}
    (hReports : ∀ t ∈ ts, ∀ r ∈ t.report.runs, r.program = t.program) :
    id ∈ (ts.flatMap (·.runsIn number)).map Run.program ↔
      ∃ t ∈ ts, t.program = id ∧ t.step.logs.any (·.number = number) = true ∧ t.report.runs ≠ [] := by
  simp only [List.mem_map, List.mem_flatMap, StepTaken.runsIn]
  constructor
  · rintro ⟨r, ⟨t, ht, hr⟩, rfl⟩
    split at hr
    · rename_i hLog
      exact ⟨t, ht, (hReports t ht r hr).symm, hLog, List.ne_nil_of_mem hr⟩
    · cases hr
  · rintro ⟨t, ht, rfl, hLog, hRuns⟩
    obtain ⟨r, hr⟩ := List.exists_mem_of_ne_nil _ hRuns
    refine ⟨r, ⟨t, ht, ?_⟩, hReports t ht r hr⟩
    rwa [if_pos hLog]

section Turns

variable {path : Location} (hPath : Reserved path) (hLeaves : run.LeavesAlone path)
  (hPosition : full.position = none) (hPosition' : targeted.position = none) (hIds : ids.Nodup)
  (hAll : Performs h run w ts w')
  (hPlan : ts.map StepTaken.plan = schedule ids [.full full, .targeted targeted])

include hPath hLeaves hPosition hPosition' hIds hAll hPlan

theorem sourceAtTurn_cases (hId : id ∈ ids) :
    (SourceAtTurn h run [.full full, .targeted targeted] ids w id ∧
      ∃ t ∈ ts, t.program = id ∧ t.step = .full full ∧ t.report.runs ≠ []) ∨
    (¬ SourceAtTurn h run [.full full, .targeted targeted] ids w id ∧
      ∀ t ∈ ts, t.program = id → t.report = .ofSkip (.missingSource (h.corpus.sourcePath id))) := by
  obtain ⟨front, back, rfl⟩ := List.append_of_mem hId
  obtain ⟨before, u, hBefore, hFront⟩ := exists_front hAll hPlan
  rcases turn_cases hPath hLeaves hPosition hPosition' hIds hAll hPlan hFront hBefore with
    ⟨hThere, hRan⟩ | ⟨-, hSkipped⟩
  · exact .inl ⟨⟨front, back, before, u, rfl, hBefore, hFront, hThere⟩, hRan⟩
  · refine .inr ⟨?_, hSkipped⟩
    rintro ⟨front', back', before', u', hSame, hBefore', hFront', hThere⟩
    rw [hSame] at hIds hPlan
    -- Had the program been run at its turn, not all its reports would be skips.
    rcases turn_cases hPath hLeaves hPosition hPosition' hIds hAll hPlan hFront' hBefore' with
      ⟨-, t, ht, hProgram, -, hRuns⟩ | ⟨hMissing, -⟩
    · rw [hSkipped t ht hProgram] at hRuns
      exact hRuns rfl
    · rw [hMissing] at hThere
      cases hThere

omit hPath hLeaves hIds hAll in
theorem exploring_of_plan {t : StepTaken} (ht : t ∈ ts) : Exploring t.step := by
  have hStep := (program_mem_of_plan hPlan ht).2
  simp only [List.mem_cons, List.not_mem_nil, or_false] at hStep
  rcases hStep with hStep | hStep
  · exact ⟨full, hPosition, .inl hStep⟩
  · exact ⟨targeted, hPosition', .inr hStep⟩

/-- The source of a program is there exactly if the logs tell of a run or a failed diff. -/
theorem known_iff_sourceAtTurn {fullRuns targetedRuns : List Run} {skipped : List Skip.Entry}
    (hFull : fullRuns.map Run.program = (ts.flatMap (·.runsIn full.number)).map Run.program)
    (hTargeted : targetedRuns.map Run.program =
      (ts.flatMap (·.runsIn targeted.number)).map Run.program)
    (hSkipped : ∀ e ∈ skipped, ∃ t ∈ ts, t.program = e.program ∧ e.skip ∈ t.report.skips)
    (hId : id ∈ ids) :
    id ∈ fullRuns.map Run.program ∨
        id ∈ (TargetedComparison.answers targetedRuns).map Run.program ∨
        TargetedComparison.Abandoned skipped (TargetedComparison.answers targetedRuns) id ↔
      SourceAtTurn h run [.full full, .targeted targeted] ids w id := by
  have hExploring : ∀ t ∈ ts, Exploring t.step := fun t ht =>
    exploring_of_plan hPosition hPosition' hPlan ht
  have hPrograms : ∀ t ∈ ts, ∀ r ∈ t.report.runs, r.program = t.program := by
    intro t ht r hr
    obtain ⟨o, mode, -, rfl⟩ := hAll.reports hPath hLeaves hExploring t ht r hr
    exact o.program_toRun _ _ _
  rcases sourceAtTurn_cases hPath hLeaves hPosition hPosition' hIds hAll hPlan hId with
    ⟨hThere, t, ht, hProgram, hStep, hRuns⟩ | ⟨hAway, hReport⟩
  · refine iff_of_true (.inl ?_) hThere
    rw [hFull, mem_programs_runsIn hPrograms]
    exact ⟨t, ht, hProgram, by simp [hStep, OpenStep.logs], hRuns⟩
  · refine iff_of_false ?_ hAway
    -- The program has no run in any log, and a missing source is no failed diff.
    have hNone : ∀ number, id ∉ (ts.flatMap (·.runsIn number)).map Run.program := by
      intro number hMem
      obtain ⟨t, ht, hProgram, -, hRuns⟩ := (mem_programs_runsIn hPrograms).mp hMem
      rw [hReport t ht hProgram] at hRuns
      exact hRuns rfl
    rintro (hMem | hMem | ⟨hDiff, -⟩)
    · exact hNone full.number (hFull ▸ hMem)
    · obtain ⟨r, hr, hSame⟩ := List.mem_map.mp hMem
      have hMem' := List.mem_map.mpr ⟨r, (List.mem_filter.mp hr).1, hSame⟩
      exact hNone targeted.number (hTargeted ▸ hMem')
    · obtain ⟨e, he, hFailed⟩ := List.any_eq_true.mp hDiff
      obtain ⟨hSame, hFailed⟩ := Bool.and_eq_true_iff.mp hFailed
      obtain ⟨t, ht, hProgram, hSkip⟩ := hSkipped e he
      rw [hReport t ht (hProgram.trans (of_decide_eq_true hSame))] at hSkip
      rw [List.mem_singleton.mp hSkip] at hFailed
      cases hFailed

end Turns

/-! ## The comparison -/

theorem gives_openAll_experiment2 {skips : Log} {steps : List OpenStep} {w₀ w₁ : World σ}
    (hSound : w.files.Sound) (hSkips : Gives (h.openLog skipLog) w skips w₀)
    (hSteps : Gives (Workflow.experiment2.steps.mapM h.openStep) w₀ steps w₁) :
    ∃ full targeted, steps = [.full full, .targeted targeted] ∧
      Opened h w₁.files fullLog full ∧ Opened h w₁.files targetedLog targeted ∧
      full.number ≠ skips.number ∧ targeted.number ≠ skips.number := by
  obtain ⟨full, targeted, u, hFull, hTargeted, rfl⟩ := gives_openSteps_experiment2_iff.mp hSteps
  obtain ⟨-, -, hLogs⟩ := gives_openAll hSound hSkips hSteps
  obtain ⟨hSound₀, -, -⟩ := gives_openLog hSound hSkips
  obtain ⟨hSoundU, -, hOpenedFull⟩ := gives_openLog hSound₀ hFull
  obtain ⟨-, hGrows, hOpenedTargeted⟩ := gives_openLog hSoundU hTargeted
  exact ⟨full, targeted, rfl, hOpenedFull.grow hGrows, hOpenedTargeted,
    hLogs (.full full) (by simp) full (by simp [OpenStep.logs]),
    hLogs (.targeted targeted) (by simp) targeted (by simp [OpenStep.logs])⟩

section Comparison

variable {skips : Log} {steps : List OpenStep} {w₀ w₁ : World σ} {summary : BatchSummary}
  (hLeaves : ∀ name ∈ [skipLog, fullLog, targetedLog], run.LeavesAlone (h.config.logPath name))
  (hReadable : ∀ o, run.Emits o → o.Readable) (hSound : w.files.Sound)
  (hSkips : Gives (h.openLog skipLog) w skips w₀)
  (hSteps : Gives (Workflow.experiment2.steps.mapM h.openStep) w₀ steps w₁)
  (hEmpty : ∀ name ∈ [skipLog, fullLog, targetedLog], w₁.files.read (h.config.logPath name) = .ok [])

include hLeaves hReadable hEmpty in
theorem gives_readRuns_of_batch {w₂ : World σ} {name : String} {log : Log} (fallback : Mode)
    (hName : name ∈ [fullLog, targetedLog]) (hOpened : Opened h w₁.files name log)
    (hNumber : skips.number ≠ log.number) (hExploring : ∀ t ∈ ts, Exploring t.step)
    (hAll : Performs h run w₁ ts w₂)
    (hRecord : Gives (recordSkips skips .experiment2 summary.skipped) w₂ ⟨⟩ w') :
    ∃ contents, Gives (Log.readRuns (h.config.logPath name) fallback) w'.files contents w'.files ∧
      contents.records.map Run.program = (ts.flatMap (·.runsIn log.number)).map Run.program := by
  have hLog : name ∈ skipLog :: runLogs := by
    have hAllLogs : ∀ s ∈ [fullLog, targetedLog], s ∈ skipLog :: runLogs := by decide
    exact hAllLogs name hName
  have hPath : Reserved (h.config.logPath name) := h.reserved_logPath hLog
  have hLeavesLog := hLeaves name (List.mem_cons_of_mem _ hName)
  have hBefore := hOpened.stores_of_read (hEmpty name (List.mem_cons_of_mem _ hName))
  have hAfter := hAll.adds hPath hLeavesLog hExploring [] hBefore
  rw [List.nil_append] at hAfter
  refine Log.gives_readRuns fallback (fun r hr => ?_)
    ((sparing_recordSkips hNumber _ _).of_gives hRecord _ hAfter)
  obtain ⟨t, ht, hr⟩ := List.mem_flatMap.mp hr
  rw [StepTaken.runsIn] at hr
  split at hr
  · obtain ⟨o, mode, hEmits, rfl⟩ := hAll.reports hPath hLeavesLog hExploring t ht r hr
    exact (hReadable o hEmits).storable _ _
  · cases hr

include hLeaves hReadable hSound hSkips hSteps hEmpty

/-- A comparison that is made after a batch accounts for a requested program, and then once, exactly if
the source of the program was there at its turn. -/
theorem requested_accounted_iff_source_at_turn (hIds : ids.Nodup)
    (hBatch : Gives (h.runWorkflow run .experiment2 ids) w summary w') :
    ∃ fullRuns targetedRuns skipped,
      Gives (Log.readRuns (h.config.logPath fullLog) .full) w'.files fullRuns w'.files ∧
      Gives (Log.readRuns (h.config.logPath targetedLog) .targeted) w'.files targetedRuns w'.files ∧
      Gives (Log.readSkips (h.config.logPath skipLog)) w'.files skipped w'.files ∧
      ∀ scan cacheBytes overhead, ∀ id ∈ ids,
        let c := TargetedComparison.compute fullRuns.records targetedRuns.records skipped.records scan
          cacheBytes overhead
        ¬ (id ∈ c.rows.map TargetedRow.program ∧ id ∈ c.dropped.drops.map (·.1)) ∧
        (id ∈ c.rows.map TargetedRow.program ∨ id ∈ c.dropped.drops.map (·.1) ↔
          SourceAtTurn h run steps ids w₁ id) := by
  obtain ⟨full, targeted, rfl, hFull, hTargeted, hNumber, hNumber'⟩ :=
    gives_openAll_experiment2 hSound hSkips hSteps
  obtain ⟨reports, w₂, hReports, rfl, hRecord⟩ := gives_of_runWorkflow hSkips hSteps hBatch
  obtain ⟨ts, hPlan, hAll, hSkipped⟩ := performs_of_runAll hReports
  have hExploring : ∀ t ∈ ts, Exploring t.step := fun t ht =>
    exploring_of_plan hFull.position hTargeted.position hPlan ht
  have hPath : Reserved (h.config.logPath skipLog) := h.reserved_logPath List.mem_cons_self
  have hLeavesSkips := hLeaves skipLog List.mem_cons_self
  obtain ⟨fullRuns, hReadFull, hFullPrograms⟩ := gives_readRuns_of_batch hLeaves hReadable hEmpty .full
    (by decide) hFull hNumber.symm hExploring hAll hRecord
  obtain ⟨targetedRuns, hReadTargeted, hTargetedPrograms⟩ := gives_readRuns_of_batch hLeaves hReadable
    hEmpty .targeted (by decide) hTargeted hNumber'.symm hExploring hAll hRecord
  have hBlank : w₁.files.read (h.config.logPath skipLog) = .ok (Text.encode "") :=
    (hEmpty skipLog List.mem_cons_self).trans (congrArg Except.ok (Text.encode_ofList []).symm)
  have hReadSkips :=
    gives_readSkips_of_batch hLeavesSkips hSound hSkips hSteps hBlank (.inl rfl) hBatch
  refine ⟨fullRuns, targetedRuns, _, hReadFull, hReadTargeted, hReadSkips, ?_⟩
  intro scan cacheBytes overhead id hId
  obtain ⟨hOnce, hKnown⟩ := TargetedComparison.kept_or_dropped_iff fullRuns.records targetedRuns.records
    _ scan cacheBytes overhead id
  refine ⟨hOnce, hKnown.trans (known_iff_sourceAtTurn hPath hLeavesSkips hFull.position
    hTargeted.position hIds hAll hPlan hFullPrograms hTargetedPrograms (fun e he => ?_) hId)⟩
  obtain ⟨⟨program, skip⟩, hMem, rfl⟩ := List.mem_map.mp he
  rw [mem_skipped_iff, hSkipped] at hMem
  obtain ⟨t, ht, hMem⟩ := List.mem_flatMap.mp hMem
  obtain ⟨skip', hSkip, hSame⟩ := List.mem_map.mp hMem
  cases hSame
  exact ⟨t, ht, rfl, hSkip⟩

end Comparison

/-! ## A batch over a program without a source -/

theorem readable_idle {o : Outcome} (h : idle.Emits o) : o.Readable := by
  obtain ⟨command, w, rfl⟩ := h
  have hSeconds : Json.Faithful (Run.elapsed Duration.zero.toSeconds) := by decide +kernel
  refine ⟨fun code hCode => ?_, hSeconds⟩
  cases hCode
  decide

def fresh : World Unit := halfFiles [] []

/-- The program that has a source is accounted for, though it comes after one that has none. -/
theorem present_source_accounted :
    ∃ summary w' fullRuns targetedRuns skipped,
      Gives (bench.runWorkflow idle .experiment2 [absent, present]) fresh summary w' ∧
      Gives (Log.readRuns (bench.config.logPath fullLog) .full) w'.files fullRuns w'.files ∧
      Gives (Log.readRuns (bench.config.logPath targetedLog) .targeted) w'.files targetedRuns w'.files ∧
      Gives (Log.readSkips (bench.config.logPath skipLog)) w'.files skipped w'.files ∧
      ∀ scan cacheBytes overhead,
        let c := TargetedComparison.compute fullRuns.records targetedRuns.records skipped.records scan
          cacheBytes overhead
        ¬ (present ∈ c.rows.map TargetedRow.program ∧ present ∈ c.dropped.drops.map (·.1)) ∧
        (present ∈ c.rows.map TargetedRow.program ∨ present ∈ c.dropped.drops.map (·.1)) := by
  have hSound : fresh.files.Sound := .of_names (by decide) (by decide)
  obtain ⟨hOpens, hMissing, hThere, hEmpty, hRuns⟩ :
      bench.opens fresh smallSkips smallFull smallTargeted = true ∧
      (bench.ready fresh).files.isFile (bench.corpus.sourcePath absent) = false ∧
      (bench.ready fresh).files.isFile (bench.corpus.sourcePath present) = true ∧
      (∀ name ∈ [skipLog, fullLog, targetedLog],
        (bench.ready fresh).files.read (bench.config.logPath name) = .ok []) ∧
      ((bench.runAll idle [.full smallFull, .targeted smallTargeted]
        [absent, present]).run.run (bench.ready fresh)).1.isOk = true := by
    decide +kernel
  obtain ⟨w₀, hSkips, hSteps⟩ := gives_of_opens hOpens
  obtain ⟨reports, hReports⟩ := Gives.exists_of_isOk hRuns
  obtain ⟨w', hBatch⟩ := exists_gives_runWorkflow hSkips hSteps hReports
  obtain ⟨fullRuns, targetedRuns, skipped, hReadFull, hReadTargeted, hReadSkips, hAccounted⟩ :=
    requested_accounted_iff_source_at_turn (fun _ _ => leavesAlone_idle _) (fun _ => readable_idle)
      hSound hSkips hSteps hEmpty (by decide) hBatch
  refine ⟨_, w', fullRuns, targetedRuns, skipped, hBatch, hReadFull, hReadTargeted, hReadSkips, ?_⟩
  intro scan cacheBytes overhead
  obtain ⟨hOnce, hIff⟩ := hAccounted scan cacheBytes overhead present (by simp)
  exact ⟨hOnce, hIff.mpr ⟨[absent], [], _, _, rfl, rfl, .of_missing smallFull smallTargeted hMissing,
    hThere⟩⟩

/-- The program without a source is neither kept nor dropped. -/
theorem absent_source_unaccounted :
    ∃ summary w' fullRuns targetedRuns skipped fs₁ fs₂,
      Gives (bench.runWorkflow idle .experiment2 [absent]) fresh summary w' ∧
      Gives (Log.readRuns (bench.config.logPath fullLog) .full) w'.files fullRuns fs₁ ∧
      Gives (Log.readRuns (bench.config.logPath targetedLog) .targeted) w'.files targetedRuns fs₂ ∧
      Gives (Log.readSkips (bench.config.logPath skipLog)) w'.files skipped w'.files ∧
      ∀ scan cacheBytes overhead,
        let c := TargetedComparison.compute fullRuns.records targetedRuns.records skipped.records scan
          cacheBytes overhead
        ¬ (absent ∈ c.rows.map TargetedRow.program ∨ absent ∈ c.dropped.drops.map (·.1)) := by
  have hSound : fresh.files.Sound := .of_names (by decide) (by decide)
  obtain ⟨hOpens, hEmpty, hSummary, hFull, hTargeted⟩ :
      bench.opens fresh smallSkips smallFull smallTargeted = true ∧
      (bench.ready fresh).files.read (bench.config.logPath skipLog) = .ok (Text.encode "") ∧
      ((bench.runWorkflow idle .experiment2 [absent]).run.run fresh).1.toOption.any
        (fun s => !(skipEntries .experiment2 s.skipped).any (·.skip.isDiffFailed)) = true ∧
      ((Log.readRuns (bench.config.logPath fullLog) .full).run.run
        ((bench.runWorkflow idle .experiment2 [absent]).run.run fresh).2.files).1.toOption.any
          (·.records.isEmpty) = true ∧
      ((Log.readRuns (bench.config.logPath targetedLog) .targeted).run.run
        ((bench.runWorkflow idle .experiment2 [absent]).run.run fresh).2.files).1.toOption.any
          (·.records.isEmpty) = true := by
    decide +kernel
  obtain ⟨w₀, hSkips, hSteps⟩ := gives_of_opens hOpens
  obtain ⟨summary, w', hBatch, hSkipped⟩ := Gives.exists_of_any hSummary
  rw [hBatch] at hFull hTargeted
  obtain ⟨fullRuns, fs₁, hReadFull, hFull⟩ := Gives.exists_of_any hFull
  obtain ⟨targetedRuns, fs₂, hReadTargeted, hTargeted⟩ := Gives.exists_of_any hTargeted
  have hReadSkips := gives_readSkips_of_batch (leavesAlone_idle _) hSound hSkips hSteps hEmpty (.inl rfl)
    hBatch
  refine ⟨summary, w', fullRuns, targetedRuns, _, fs₁, fs₂, hBatch, hReadFull, hReadTargeted, hReadSkips,
    fun scan cacheBytes overhead hMem => ?_⟩
  rcases (TargetedComparison.kept_or_dropped_iff _ _ _ scan cacheBytes overhead absent).2.mp hMem with
    hRan | hRan | ⟨hDiff, -⟩
  · rw [List.isEmpty_iff.mp hFull] at hRan
    cases hRan
  · rw [List.isEmpty_iff.mp hTargeted] at hRan
    cases hRan
  · obtain ⟨e, he, hFailed⟩ := List.any_eq_true.mp hDiff
    have hAny : (skipEntries .experiment2 summary.skipped).any (·.skip.isDiffFailed) = true :=
      List.any_eq_true.mpr ⟨e, he, (Bool.and_eq_true_iff.mp hFailed).2⟩
    rw [hAny] at hSkipped
    cases hSkipped

end Harness

end Reanalysis
