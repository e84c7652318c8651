import Reanalysis.Proofs.Harness.Targeted

/-!
# Batches that can be foreseen

A program without statements has changes that are known without parsing it. A batch of such programs is put
together from steps that can each be evaluated, and from what is known about the states that they keep.
-/

namespace Reanalysis

theorem Command.build_of_isFile {fs : Files} {purpose program : String} {rest args : List String}
    {inputs : List Files.Location} {timeout : Duration} (hProgram : Text.isBlankText program = false)
    (hTimeout : timeout ≠ .zero) (hInputs : ∀ p ∈ inputs, fs.isFile p = true) :
    build fs purpose (program :: rest) args inputs timeout = .ok ⟨program, rest ++ args, timeout⟩ := by
  have hNone : inputs.find? (!fs.isFile ·) = none := by
    refine List.find?_eq_none.mpr fun p hp => ?_
    rw [hInputs p hp]
    decide
  rw [build, hProgram, if_neg Bool.false_ne_true, if_neg hTimeout, hNone]

namespace Harness

open HarnessAction CacheStore

variable {σ : Type} {h : Harness} {run : Runner σ} {id : ProgramId} {report : StepReport}
  {w w₀ w₁ w' : World σ} {full targeted : Log} {base modified : String}

/-! ## Steps without parsing -/

/-- A targeted step for two versions without statements. A command that is given is launched without a look
at the stored state. -/
def blankStep (h : Harness) (run : Runner σ) (log : Log) (id : ProgramId) (base modified : String)
    (warm? : Option Command) : HarnessAction σ StepReport := do
  modify fun w => { w with files := (h.writeBlank id base modified w.files).2 }
  let chosen ← warm?.elim (h.chooseRun id) fun command => pure (command, .targeted)
  let result ← execute run log chosen.1 id chosen.2 none
  return .ofRun result.1

theorem gives_targetedStep_of_blank {warm? : Option Command} (hBase : Script.IsBlank base.toList)
    (hModified : Script.IsBlank modified.toList) (hDiffer : h.config.differ.external? = none)
    (hBlank : h.Blank id base modified w.files)
    (hWarm : ∀ command ∈ warm?, Gives (h.chooseRun id) { w with files := h.filesWithDiff id w.files }
      (command, .targeted) { w with files := h.filesWithDiff id w.files })
    (hRun : Gives (h.blankStep run targeted id base modified warm?) w report w') :
    Gives (h.targetedStep run targeted id) w report w' := by
  obtain ⟨bytes, artifact, hDiff, hComputed⟩ := hBlank.computed hBase hModified
  rw [filesWithDiff_of_gives hComputed] at hWarm
  simp only [blankStep, Gives.bind_iff, Gives.modify_iff, Gives.pure_iff] at hRun
  obtain ⟨_, _, rfl, ⟨command, mode⟩, w₁, hChosen, result, _, hExecute, rfl, rfl⟩ := hRun
  cases warm? with
  | none =>
    obtain ⟨rfl, -⟩ := gives_chooseRun hChosen
    exact gives_targetedStep_of_chosen hDiffer hDiff hComputed hChosen hExecute
  | some warm =>
    obtain ⟨hSame, rfl⟩ := Gives.pure_iff.mp hChosen
    cases hSame
    exact gives_targetedStep_of_chosen hDiffer hDiff hComputed (hWarm _ rfl) hExecute

/-- A kept state that was explored from the text of the program is used. -/
theorem gives_chooseRun_of_kept {root logs : Place} {ledger : Ledger} {program : String} {rest : List String}
    {state text : Bytes} {artifact : DiffArtifact} {fs : Files} (hSound : w.files.Sound)
    (hLogs : w.files.Leads h.config.logDir logs) (hAcc : h.store.Accounted root ledger noLoose w.files)
    (hKept : ledger.keeps id state (.compute text))
    (hText : w.files.read (h.corpus.sourcePath id) = .ok text)
    (hComputed : Gives (h.computeDiff id) w.files artifact fs)
    (hArgv : h.config.engine.targeted = program :: rest) (hProgram : Text.isBlankText program = false)
    (hTimeout : h.config.targetedTimeout ≠ .zero) :
    Gives (h.chooseRun id) { w with files := h.filesWithDiff id w.files }
      (⟨program, rest ++ ["--diff", Command.option "cache" (h.store.cachePath id),
        Command.option "diffFile" (h.config.diffPath id)], h.config.targetedTimeout⟩, .targeted)
      { w with files := h.filesWithDiff id w.files } := by
  obtain ⟨hAlters, hTidy⟩ := quiet_filesWithDiff id hAcc.tidy hLogs
  obtain ⟨hRead, hState⟩ := (hAcc.quiet hAlters hTidy).read_of_kept hKept
  obtain ⟨d, hFresh⟩ := exists_freshDiff hLogs hComputed
  refine gives_chooseRun_targeted_iff.mpr ⟨rfl, text, h.store.artifact id state (some (.compute text)),
    read_source_filesWithDiff hSound hText, gives_usableState_some_iff.mpr ⟨hRead, ?_⟩, ?_⟩
  · simp [CacheArtifact.matchesBase, CacheStore.artifact]
  · rw [hArgv]
    refine Command.build_of_isFile hProgram hTimeout fun p hp => ?_
    rcases List.mem_cons.mp hp with rfl | hp
    · exact Files.isFile_of_read hState
    · rw [List.mem_singleton.mp hp]
      exact Files.isFile_of_read hFresh.written

/-! ## One step after the other -/

/-- A step that is taken in a batch, with the command if it uses a kept state. -/
inductive Leg where
  | full (id : ProgramId)
  | targeted (id : ProgramId) (warm? : Option Command)

namespace Leg

def plan (full targeted : Log) : Leg → ProgramId × OpenStep
  | .full id => (id, .full full)
  | .targeted id _ => (id, .targeted targeted)

def action (h : Harness) (run : Runner σ) (full targeted : Log) (base modified : String) :
    Leg → HarnessAction σ StepReport
  | .full id => h.runStep run id (.full full)
  | .targeted id warm? => h.blankStep run targeted id base modified warm?

/-- What the step needs of the program, if it is one with changes. -/
def Suited (h : Harness) (base modified : String) (fs : Files) : Leg → Prop
  | .full _ => True
  | .targeted id _ => h.Blank id base modified fs

instance (fs : Files) : (leg : Leg) → Decidable (leg.Suited h base modified fs)
  | .full _ => .isTrue trivial
  | .targeted _ _ => inferInstanceAs (Decidable (h.Blank _ _ _ _))

def warm? : Leg → Option Command
  | .full _ => none
  | .targeted _ warm? => warm?

/-- The command that is given is the one that the step would choose. -/
def Warm (h : Harness) (w : World σ) : Leg → Prop
  | .full _ => True
  | .targeted id warm? => ∀ command ∈ warm?,
    Gives (h.chooseRun id) { w with files := h.filesWithDiff id w.files } (command, .targeted)
      { w with files := h.filesWithDiff id w.files }

end Leg

section Legs

variable (h run full targeted base modified)

def after (w : World σ) (leg : Leg) : World σ :=
  ((leg.action h run full targeted base modified).run.run w).2

/-- All steps can be taken one after the other, and nothing is passed over. -/
def goes : World σ → List Leg → Bool
  | _, [] => true
  | w, leg :: legs =>
    decide (leg.Suited h base modified w.files) &&
      ((leg.action h run full targeted base modified).run.run w).1.toOption.any (·.skips.isEmpty) &&
      goes (h.after run full targeted base modified w leg) legs

variable {h run full targeted base modified} in
theorem goes_cons_iff {w : World σ} {leg : Leg} {legs : List Leg} :
    h.goes run full targeted base modified w (leg :: legs) = true ↔
      leg.Suited h base modified w.files ∧
      (∃ report, Gives (leg.action h run full targeted base modified) w report
        (h.after run full targeted base modified w leg) ∧ report.skips = []) ∧
      h.goes run full targeted base modified (h.after run full targeted base modified w leg) legs = true := by
  rw [goes, Bool.and_eq_true, Bool.and_eq_true, decide_eq_true_iff, and_assoc]
  refine and_congr_right fun _ => and_congr_left fun _ => ⟨fun hTaken => ?_, ?_⟩
  · obtain ⟨report, w', hRun, hSkips⟩ := Gives.exists_of_any hTaken
    obtain rfl : h.after run full targeted base modified w leg = w' := congrArg Prod.snd hRun
    exact ⟨report, hRun, List.isEmpty_iff.mp hSkips⟩
  · rintro ⟨report, hRun, hSkips⟩
    rw [hRun]
    exact List.isEmpty_iff.mpr hSkips

def Warms : World σ → List Leg → Prop
  | _, [] => True
  | w, leg :: legs => leg.Warm h w ∧ Warms (h.after run full targeted base modified w leg) legs

variable {h run full targeted base modified} in
theorem warms_of_cold {w : World σ} {legs : List Leg} (hCold : ∀ leg ∈ legs, leg.warm? = none) :
    h.Warms run full targeted base modified w legs := by
  induction legs generalizing w with
  | nil => trivial
  | cons leg legs ih =>
    obtain ⟨hFirst, hRest⟩ := List.forall_mem_cons.mp hCold
    refine ⟨?_, ih hRest⟩
    cases leg with
    | full id => trivial
    | targeted id warm? =>
      rintro command hMem
      obtain rfl : warm? = none := hFirst
      cases hMem

/-- The steps lead from one state to another, by evaluation and by what is known of the kept states. -/
structure Foreseen (w : World σ) (legs : List Leg) (w' : World σ) : Prop where
  goes : h.goes run full targeted base modified w legs = true
  warms : h.Warms run full targeted base modified w legs
  ends : legs.foldl (h.after run full targeted base modified) w = w'

end Legs

section Taken

variable {legs : List Leg} {ts : List StepTaken} {ids : List ProgramId}
  (hDiffer : h.config.differ.external? = none)

include hDiffer

theorem Foreseen.performs (hBase : Script.IsBlank base.toList) (hModified : Script.IsBlank modified.toList)
    (hForeseen : h.Foreseen run full targeted base modified w legs w') :
    ∃ ts, ts.map StepTaken.plan = legs.map (Leg.plan full targeted) ∧ (∀ t ∈ ts, t.report.skips = []) ∧
      Performs h run w ts w' := by
  obtain ⟨hGoes, hWarms, rfl⟩ := hForeseen
  induction legs generalizing w with
  | nil => exact ⟨[], rfl, List.forall_mem_nil _, .nil w⟩
  | cons leg legs ih =>
    obtain ⟨hSuited, ⟨report, hRun, hSkips⟩, hRest⟩ := goes_cons_iff.mp hGoes
    obtain ⟨hWarm, hWarms⟩ := hWarms
    obtain ⟨ts, hPlan, hNone, hAll⟩ := ih hRest hWarms
    have hStep : Gives (h.runStep run (leg.plan full targeted).1 (leg.plan full targeted).2) w report
        (h.after run full targeted base modified w leg) := by
      cases leg with
      | full id => exact hRun
      | targeted id warm? => exact gives_targetedStep_of_blank hBase hModified hDiffer hSuited hWarm hRun
    refine ⟨⟨_, _, report⟩ :: ts, ?_, List.forall_mem_cons.mpr ⟨hSkips, hNone⟩, .cons hStep hAll⟩
    rw [List.map_cons, List.map_cons, hPlan]
    rfl

theorem noted_of_performs {engine : Engine} {w w' : World (List Launch)}
    (hSteps : ∀ t ∈ ts, t.step.log?.isSome = true) (hAll : Performs h engine.runner w ts w')
    (hNoted : engine.Noted w.engine) : engine.Noted w'.engine := by
  induction hAll with
  | nil w => exact hNoted
  | cons hStep _ ih =>
    obtain ⟨hFirst, hRest⟩ := List.forall_mem_cons.mp hSteps
    exact ih hRest (noted_of_runStep hNoted hDiffer hFirst hStep)

end Taken

/-! ## Whole batches -/

variable {ids : List ProgramId}

theorem gives_openLog_of_find {name : String} {place : Place} {number : Nat}
    (hName : name ∈ skipLog :: runLogs)
    (hFound : w.files.find (h.config.logPath name) = .ok (place, .file number)) :
    Gives (h.openLog name) w ⟨h.config.logPath name, number, none⟩ w :=
  gives_ofStore_iff.mpr ⟨w.files, Log.gives_attach_of_find (plainName_log hName) hFound, rfl⟩

/-- A batch that passes over nothing ends where its last step does. -/
theorem exists_gives_runWorkflow_of_performs {workflow : Workflow} {skips : Log} {steps : List OpenStep}
    {ts : List StepTaken}
    (hSkips : Gives (h.openLog skipLog) w skips w₀)
    (hSteps : Gives (workflow.steps.mapM h.openStep) w₀ steps w₁)
    (hPlan : ts.map StepTaken.plan = schedule ids steps) (hNone : ∀ t ∈ ts, t.report.skips = [])
    (hAll : Performs h run w₁ ts w') : ∃ summary, Gives (h.runWorkflow run workflow ids) w summary w' := by
  obtain ⟨reports, hReports⟩ := exists_gives_runAll hPlan hAll
  obtain ⟨us, hPlan', hAll', hSkipped⟩ := performs_of_runAll hReports
  have hSame : ts.map StepTaken.plan = us.map StepTaken.plan := hPlan.trans hPlan'.symm
  obtain ⟨rest, rfl, -⟩ := hAll.eq_append hAll' (hSame ▸ List.prefix_rfl)
  obtain rfl : rest = [] := by
    have hLength := congrArg List.length hSame
    simpa using hLength
  have hEmpty : (BatchSummary.of h.runName workflow reports).skipped = [] := by
    rw [List.eq_nil_iff_forall_not_mem]
    intro e he
    rw [mem_skipped_iff, hSkipped, List.append_nil] at he
    obtain ⟨t, ht, he⟩ := List.mem_flatMap.mp he
    rw [StepTaken.skipped, hNone t ht] at he
    cases he
  refine ⟨.of h.runName workflow reports, ?_⟩
  rw [runWorkflow_eq]
  simp only [Gives.bind_iff, Gives.pure_iff]
  refine ⟨skips, w₀, hSkips, steps, w₁, hSteps, reports, w', hReports, ⟨⟩, w', ?_, rfl, rfl⟩
  rw [hEmpty]
  exact Gives.forM_nil_iff.mpr rfl

theorem Foreseen.batch {engine : Engine} {w w' : World (List Launch)} {legs : List Leg} {skips : Log}
    {steps : List OpenStep} (workflow : Workflow) (hDiffer : h.config.differ.external? = none)
    (hBase : Script.IsBlank base.toList) (hModified : Script.IsBlank modified.toList)
    (hForeseen : h.Foreseen engine.runner full targeted base modified w legs w')
    (hSkips : Gives (h.openLog skipLog) w skips w) (hSteps : Gives (workflow.steps.mapM h.openStep) w steps w)
    (hPlan : legs.map (Leg.plan full targeted) = schedule ids steps) (hNoted : engine.Noted w.engine) :
    (∃ summary, Gives (h.runWorkflow engine.runner workflow ids) w summary w') ∧ engine.Noted w'.engine := by
  obtain ⟨ts, hTaken, hNone, hAll⟩ := hForeseen.performs hDiffer hBase hModified
  refine ⟨exists_gives_runWorkflow_of_performs hSkips hSteps (hTaken.trans hPlan) hNone hAll,
    noted_of_performs hDiffer (fun t ht => ?_) hAll hNoted⟩
  obtain ⟨leg, -, hLeg⟩ := List.mem_map.mp (hTaken ▸ List.mem_map_of_mem ht)
  have hStep : (leg.plan full targeted).2 = t.step := congrArg Prod.snd hLeg
  rw [← hStep]
  cases leg <;> rfl

end Harness

end Reanalysis
