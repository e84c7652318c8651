import Mathlib.Algebra.Order.Ring.Nat
import Reanalysis.Proofs.Harness.Concurrent
import Reanalysis.Proofs.Harness.Skipped

/-!
# Summaries and logs

The summary of a batch counts what stands in the logs, in whatever order its programs come to their ends:
the records of every run, the samples, and the skips.
-/

namespace Reanalysis

open Files (Location Spares)

theorem perm_flatMap_filter {α κ : Type} [DecidableEq κ] (key : α → κ) {keys : List κ}
    (hNodup : keys.Nodup) {l : List α} (hKeys : ∀ a ∈ l, key a ∈ keys) :
    (keys.flatMap fun k => l.filter (key · = k)).Perm l := by
  induction l with
  | nil => simp
  | cons a l ih =>
    obtain ⟨hHead, hTail⟩ := List.forall_mem_cons.mp hKeys
    obtain ⟨front, back, rfl⟩ := List.append_of_mem hHead
    have hOthers : ∀ k ∈ front ++ back, (a :: l).filter (key · = k) = l.filter (key · = k) := by
      intro k hk
      rw [List.nodup_middle, List.nodup_cons] at hNodup
      refine List.filter_cons_of_neg ?_
      simp only [decide_eq_true_eq]
      rintro rfl
      exact hNodup.1 hk
    have hFront := List.flatMap_congr fun k hk => hOthers k (List.mem_append_left back hk)
    have hBack := List.flatMap_congr fun k hk => hOthers k (List.mem_append_right front hk)
    have hThis : (a :: l).filter (key · = key a) = a :: l.filter (key · = key a) :=
      List.filter_cons_of_pos (by simp)
    have ih := ih hTail
    rw [List.flatMap_append, List.flatMap_cons] at ih ⊢
    rw [hFront, hBack, hThis, List.cons_append]
    exact List.perm_middle.trans (ih.cons a)

/-! ## Counting -/

namespace BatchSummary

variable {runName : String} {workflow : Workflow} {reports reports' : List (ProgramId × StepReport)}

def sorted (reports : List (ProgramId × StepReport)) : List (ProgramId × StepReport) :=
  reports.mergeSort fun a b => a.1.number ≤ b.1.number

theorem sorted_perm (reports : List (ProgramId × StepReport)) : (sorted reports).Perm reports :=
  List.mergeSort_perm _ _

theorem pairwise_sorted (reports : List (ProgramId × StepReport)) :
    (sorted reports).Pairwise fun a b => a.1.number ≤ b.1.number := by
  refine (List.pairwise_mergeSort ?_ ?_ reports).imp fun h => of_decide_eq_true h
  · intro a b c hab hbc
    simp only [decide_eq_true_eq] at hab hbc ⊢
    omega
  · intro a b
    simp only [Bool.or_eq_true, decide_eq_true_eq]
    omega

def reportedRuns (reports : List (ProgramId × StepReport)) : List Run := reports.flatMap (·.2.runs)

theorem runs_perm (reports : List (ProgramId × StepReport)) :
    (reportedRuns (sorted reports)).Perm (reportedRuns reports) :=
  (sorted_perm reports).flatMap_right _

theorem sorted_eq_of_perm (hNodup : (reports.map Prod.fst).Nodup) (hPerm : reports'.Perm reports) :
    sorted reports' = sorted reports := by
  have hSame : (sorted reports').Perm (sorted reports) :=
    (sorted_perm reports').trans (hPerm.trans (sorted_perm reports).symm)
  refine hSame.eq_of_pairwise ?_ (pairwise_sorted reports') (pairwise_sorted reports)
  intro a b ha hb hab hba
  have ha := (hSame.trans (sorted_perm reports)).mem_iff.mp ha
  have hb := (sorted_perm reports).mem_iff.mp hb
  exact List.inj_on_of_nodup_map hNodup ha hb (ProgramId.number_inj (Nat.le_antisymm hab hba))

theorem of_perm (runName' : String) (hNodup : (reports.map Prod.fst).Nodup)
    (hPerm : reports'.Perm reports) :
    BatchSummary.of runName' workflow reports' =
      { BatchSummary.of runName workflow reports with runName := runName' } := by
  have hSorted := sorted_eq_of_perm hNodup hPerm
  simp only [sorted] at hSorted
  simp only [BatchSummary.of, hSorted, hPerm.length_eq]

theorem pairwise_skipped (runName : String) (workflow : Workflow)
    (reports : List (ProgramId × StepReport)) :
    (BatchSummary.of runName workflow reports).skipped.Pairwise fun a b => a.1.number ≤ b.1.number := by
  refine List.pairwise_flatMap.mpr ⟨fun r _ => ?_, (pairwise_sorted reports).imp ?_⟩
  · rw [List.pairwise_map]
    exact List.pairwise_of_forall fun _ _ => Nat.le_refl _
  · intro a b hab x hx y hy
    obtain ⟨_, _, rfl⟩ := List.mem_map.mp hx
    obtain ⟨_, _, rfl⟩ := List.mem_map.mp hy
    exact hab

theorem length_filter_status (runs : List Run) :
    (runs.filter (·.status = .ok)).length + (runs.filter (·.status = .failed)).length +
      (runs.filter (·.status = .timeout)).length = runs.length := by
  induction runs with
  | nil => rfl
  | cons r runs ih =>
    simp only [List.filter_cons, List.length_cons]
    cases r.status <;> simp <;> omega

/-- The summary counts these runs. -/
structure Counts (summary : BatchSummary) (runs : List Run) : Prop where
  all : runs.length = summary.ok + summary.failed + summary.timedOut
  ok : (runs.filter (·.status = .ok)).length = summary.ok
  failed : (runs.filter (·.status = .failed)).length = summary.failed
  timedOut : (runs.filter (·.status = .timeout)).length = summary.timedOut
  cold : (runs.filter (·.mode = .cold)).length = summary.cold

theorem counts_of_perm {runs : List Run} (hPerm : runs.Perm (reportedRuns reports)) :
    (BatchSummary.of runName workflow reports).Counts runs := by
  have hCount : ∀ p : Run → Bool,
      (runs.filter p).length = ((reportedRuns (sorted reports)).filter p).length :=
    fun p => ((hPerm.trans (runs_perm reports).symm).filter p).length_eq
  refine ⟨?_, hCount _, hCount _, hCount _, hCount _⟩
  rw [← length_filter_status, hCount, hCount, hCount]
  rfl

theorem samples_eq (runName : String) (workflow : Workflow) (reports : List (ProgramId × StepReport)) :
    (BatchSummary.of runName workflow reports).samples = (reports.map (·.2.samples)).sum := by
  have hFold : ∀ (l : List (ProgramId × StepReport)) n,
      l.foldl (fun n r => n + r.2.samples) n = n + (l.map (·.2.samples)).sum := by
    intro l
    induction l with
    | nil => simp
    | cons r l ih =>
      intro n
      rw [List.foldl_cons, ih, List.map_cons, List.sum_cons, Nat.add_assoc]
  refine (hFold (sorted reports) 0).trans ?_
  rw [Nat.zero_add]
  exact ((sorted_perm reports).map _).sum_nat

end BatchSummary

/-! ## Logs of steps -/

def Step.logName : Step → String
  | .full => Harness.fullLog
  | .timing => Harness.timingLog
  | .targeted => Harness.targetedLog
  | .fuzz => Harness.fuzzLog

theorem Step.logName_mem (step : Step) :
    step.logName ∈ Harness.runLogs ∧ step.logName ≠ Harness.coverageLog := by
  cases step <;> decide

namespace Workflow

def runLogs (workflow : Workflow) : List String := workflow.steps.map Step.logName

def logs (workflow : Workflow) : List String :=
  if .fuzz ∈ workflow.steps then Harness.coverageLog :: workflow.runLogs else workflow.runLogs

theorem nodup_runLogs (workflow : Workflow) : workflow.runLogs.Nodup := by
  cases workflow <;> decide

end Workflow

namespace Harness

open HarnessAction

variable {σ : Type} {h : Harness} {run : Runner σ} {meanwhile : World σ → World σ → Prop}
  {workflow : Workflow} {ids : List ProgramId} {steps : List OpenStep} {skips : Log}
  {events : List (ProgramId × Event)} {reports : List (ProgramId × StepReport)}
  {w w₀ w₁ w₂ w' : World σ} {fs fs' : Files} {name : String} {log : Log}

theorem logPath_inj {name' : String} (hName : name ∈ skipLog :: runLogs)
    (hName' : name' ∈ skipLog :: runLogs) (hSame : h.config.logPath name = h.config.logPath name') :
    name = name' := by
  have hSteps := congrArg Files.steps hSame
  rw [Config.logPath, Config.logPath, Files.steps_join (plainName_log hName),
    Files.steps_join (plainName_log hName')] at hSteps
  exact (List.append_singleton_inj.mp hSteps).2

/-- The log of this name is open at its location. -/
structure Attached (h : Harness) (fs : Files) (name : String) (log : Log) : Prop
    extends Opened h fs name log where
  path : log.path = h.config.logPath name

theorem Attached.grow (hLog : Attached h fs name log) (hGrows : Files.Grows fs fs') :
    Attached h fs' name log := ⟨hLog.toOpened.grow hGrows, hLog.path⟩

theorem attached_openLog (hSound : w.files.Sound) (hOpen : Gives (h.openLog name) w log w') :
    Attached h w'.files name log := by
  refine ⟨(gives_openLog hSound hOpen).2.2, ?_⟩
  obtain ⟨fs, hAttach, -⟩ := gives_ofStore_iff.mp hOpen
  simp only [Log.attach, Gives.bind_iff, Gives.pure_iff] at hAttach
  obtain ⟨_, _, _, _, _, _, rfl, -⟩ := hAttach
  rfl

/-- The logs of a step are open. -/
structure StepAttached (h : Harness) (fs : Files) (step : Step) (opened : OpenStep) : Prop where
  runLog : Attached h fs step.logName opened.runLog
  coverage : ∀ log, opened.coverage? = some log → step = .fuzz ∧ Attached h fs coverageLog log
  covered : step = .fuzz → opened.coverage?.isSome = true

theorem StepAttached.grow {step : Step} {opened : OpenStep} (hStep : StepAttached h fs step opened)
    (hGrows : Files.Grows fs fs') : StepAttached h fs' step opened where
  runLog := hStep.runLog.grow hGrows
  coverage log hLog := (hStep.coverage log hLog).imp_right (·.grow hGrows)
  covered := hStep.covered

theorem attached_openStep {step : Step} {opened : OpenStep} (hSound : w.files.Sound)
    (hOpen : Gives (h.openStep step) w opened w') : StepAttached h w'.files step opened := by
  cases step with
  | fuzz =>
    simp only [openStep, Gives.bind_iff, Gives.pure_iff] at hOpen
    obtain ⟨coverage, w₁, hCoverage, log, _, hLog, rfl, rfl⟩ := hOpen
    obtain ⟨hSound₁, -, -⟩ := gives_openLog hSound hCoverage
    obtain ⟨-, hGrows, -⟩ := gives_openLog hSound₁ hLog
    refine ⟨attached_openLog hSound₁ hLog, fun log hLog => ?_, fun _ => rfl⟩
    obtain rfl := Option.some.inj hLog
    exact ⟨rfl, (attached_openLog hSound hCoverage).grow hGrows⟩
  | full | timing | targeted =>
    simp only [openStep, Gives.bind_iff, Gives.pure_iff] at hOpen
    obtain ⟨log, _, hLog, rfl, rfl⟩ := hOpen
    refine ⟨attached_openLog hSound hLog, fun log hLog => ?_, fun hFuzz => ?_⟩
    · cases hLog
    · cases hFuzz

theorem attached_openSteps {plan : List Step} (hSound : w.files.Sound)
    (hOpen : Gives (plan.mapM h.openStep) w steps w') :
    List.Forall₂ (StepAttached h w'.files) plan steps := by
  induction plan generalizing w steps with
  | nil =>
    obtain ⟨rfl, -⟩ := Gives.mapM_nil_iff.mp hOpen
    exact .nil
  | cons step plan ih =>
    obtain ⟨opened, w₁, rest, hFirst, hRest, rfl⟩ := Gives.mapM_cons_iff.mp hOpen
    obtain ⟨hSound₁, -, -⟩ := gives_openStep hSound hFirst
    obtain ⟨-, hGrows, -⟩ := gives_openSteps hSound₁ hRest
    exact .cons ((attached_openStep hSound hFirst).grow hGrows) (ih hSound₁ hRest)

theorem exists_attached {plan : List Step} {opened : OpenStep}
    (hPlan : List.Forall₂ (StepAttached h fs) plan steps) (hOpened : opened ∈ steps) :
    ∃ step ∈ plan, StepAttached h fs step opened := by
  induction hPlan with
  | nil => cases hOpened
  | cons hHead _ ih =>
    rcases List.mem_cons.mp hOpened with rfl | hOpened
    · exact ⟨_, List.mem_cons_self, hHead⟩
    · obtain ⟨step, hStep, hAttached⟩ := ih hOpened
      exact ⟨step, List.mem_cons_of_mem _ hStep, hAttached⟩

theorem exists_opened {plan : List Step} {step : Step}
    (hPlan : List.Forall₂ (StepAttached h fs) plan steps) (hStep : step ∈ plan) :
    ∃ opened, StepAttached h fs step opened := by
  induction hPlan with
  | nil => cases hStep
  | cons hHead _ ih =>
    rcases List.mem_cons.mp hStep with rfl | hStep
    · exact ⟨_, hHead⟩
    · exact ih hStep

/-! ## Events and their logs -/

/-- What events of some kind have to do with the log at a location, in their order. -/
def entriesAt {α : Type} (kind : Event → Option (Log × α)) (path : Location)
    (events : List (ProgramId × Event)) : List α :=
  ((events.filterMap (kind ·.2)).filter (·.1.path = path)).map Prod.snd

theorem mem_eventsOf {e : ProgramId × Event} (he : e ∈ events) : e.2 ∈ eventsOf e.1 events :=
  List.mem_map_of_mem (List.mem_filter.mpr ⟨he, decide_eq_true rfl⟩)

/-- Every report tells what has happened for its program, and there are no other events. -/
structure Told (steps : List OpenStep) (events : List (ProgramId × Event))
    (reports : List (ProgramId × StepReport)) : Prop where
  nodup : (reports.map Prod.fst).Nodup
  known : ∀ e ∈ events, e.1 ∈ reports.map Prod.fst
  tells : ∀ r ∈ reports, Tells r.1 steps (eventsOf r.1 events) r.2

theorem Interleaved.told (hAll : Interleaved run meanwhile w (h.courses run steps ids) events reports w')
    (hIds : ids.Nodup) : Told steps events reports := by
  have hPrograms : (h.courses run steps ids).map Prod.fst = ids := by
    simp [courses, Function.comp_def]
  have hAccounts := hAll.accounts (by rw [hPrograms]; exact hIds)
  have hPerm := hAccounts.programs
  rw [hPrograms] at hPerm
  have hNodup : (reports.map Prod.fst).Nodup := hPerm.nodup_iff.mpr hIds
  refine ⟨hNodup, fun e he => ?_, fun r hr => ?_⟩
  · rw [hPerm.mem_iff, ← hPrograms]
    exact hAccounts.known e he
  · have hId : r.1 ∈ ids := hPerm.mem_iff.mp (List.mem_map_of_mem hr)
    obtain ⟨report, hReport, hPasses⟩ := hAccounts.passes _ (List.mem_map_of_mem hId)
    -- There is one report for each program.
    have hSame : (r.1, report) = r := List.inj_on_of_nodup_map hNodup hReport hr rfl
    obtain rfl : report = r.2 := congrArg Prod.snd hSame
    exact Course.tells_steps hPasses

namespace Told

variable (hTold : Told steps events reports)

include hTold

theorem perm_kind {α : Type} (kind : Event → Option α) :
    (reports.flatMap fun r => (eventsOf r.1 events).filterMap kind).Perm
      (events.filterMap (kind ·.2)) := by
  have hPerm := (perm_flatMap_filter Prod.fst hTold.nodup hTold.known).filterMap (kind ·.2)
  rw [List.flatMap_map, List.filterMap_flatMap] at hPerm
  simpa only [eventsOf, List.filterMap_map, Function.comp_def] using hPerm

theorem runs_perm :
    ((events.filterMap (·.2.record?)).map Prod.snd).Perm (BatchSummary.reportedRuns reports) := by
  refine ((hTold.perm_kind Event.record?).map Prod.snd).symm.trans (.of_eq ?_)
  rw [List.map_flatMap, BatchSummary.reportedRuns]
  exact List.flatMap_congr fun r hr => ((hTold.tells r hr).runs).symm

theorem length_samples :
    (events.filterMap (·.2.sample?)).length = (reports.map (·.2.samples)).sum := by
  rw [← (hTold.perm_kind Event.sample?).length_eq, List.length_flatMap]
  congr 1
  exact List.map_congr_left fun r hr => ((hTold.tells r hr).samples).symm

theorem length_launches :
    (events.filterMap (·.2.launch?)).length = (events.filterMap (·.2.record?)).length := by
  rw [← (hTold.perm_kind Event.launch?).length_eq, ← (hTold.perm_kind Event.record?).length_eq]
  congr 1
  exact List.flatMap_congr fun r hr => (hTold.tells r hr).launches

theorem exists_tells {e : ProgramId × Event} (he : e ∈ events) :
    ∃ report, Tells e.1 steps (eventsOf e.1 events) report := by
  obtain ⟨r, hr, hProgram⟩ := List.mem_map.mp (hTold.known e he)
  exact ⟨r.2, hProgram ▸ hTold.tells r hr⟩

theorem launches_eq_records (id : ProgramId) :
    (eventsOf id events).filterMap Event.launch? = (eventsOf id events).filterMap Event.record? := by
  by_cases hId : id ∈ reports.map Prod.fst
  · obtain ⟨r, hr, rfl⟩ := List.mem_map.mp hId
    exact (hTold.tells r hr).launches
  · rw [eventsOf_eq_nil]
    · rfl
    · rintro e he rfl
      exact hId (hTold.known e he)

theorem program_of_record {e : ProgramId × Event} {entry : Log × Run} (he : e ∈ events)
    (hEntry : e.2.record? = some entry) : entry.2.program = e.1 := by
  obtain ⟨report, hTells⟩ := hTold.exists_tells he
  exact hTells.program entry (List.mem_filterMap.mpr ⟨e.2, mem_eventsOf he, hEntry⟩)

theorem program_of_launch {e : ProgramId × Event} {entry : Log × Run} (he : e ∈ events)
    (hEntry : e.2.launch? = some entry) : entry.2.program = e.1 := by
  obtain ⟨report, hTells⟩ := hTold.exists_tells he
  refine hTells.program entry ?_
  rw [← hTells.launches]
  exact List.mem_filterMap.mpr ⟨e.2, mem_eventsOf he, hEntry⟩

omit hTold in
theorem filter_entriesAt {kind : Event → Option (Log × Run)} (path : Location) (id : ProgramId)
    (hProgram : ∀ e ∈ events, ∀ entry, kind e.2 = some entry → entry.2.program = e.1) :
    (entriesAt kind path events).filter (·.program = id) =
      (((eventsOf id events).filterMap kind).filter (·.1.path = path)).map Prod.snd := by
  induction events with
  | nil => rfl
  | cons e events ih =>
    obtain ⟨hHead, hTail⟩ := List.forall_mem_cons.mp hProgram
    have ih := ih hTail
    rcases e with ⟨program, event⟩
    by_cases hId : program = id
    · subst hId
      rw [eventsOf_cons_self]
      cases hKind : kind event with
      | none =>
        simp only [entriesAt, List.filterMap_cons, hKind] at ih ⊢
        exact ih
      | some entry =>
        have hSame : entry.2.program = program := hHead entry hKind
        simp only [entriesAt, List.filterMap_cons, hKind, List.filter_cons] at ih ⊢
        split
        · simp only [List.map_cons, List.filter_cons, hSame, decide_true, if_true]
          rw [ih]
        · exact ih
    · rw [eventsOf_cons_of_ne hId]
      cases hKind : kind event with
      | none =>
        simp only [entriesAt, List.filterMap_cons, hKind] at ih ⊢
        exact ih
      | some entry =>
        have hOther : entry.2.program ≠ id := (hHead entry hKind).trans_ne hId
        simp only [entriesAt, List.filterMap_cons, hKind, List.filter_cons] at ih ⊢
        split
        · simp only [List.map_cons, List.filter_cons, hOther, decide_false, Bool.false_eq_true, if_false]
          exact ih
        · exact ih

theorem launches_in_order (path : Location) (id : ProgramId) :
    (entriesAt Event.launch? path events).filter (·.program = id) =
      (entriesAt Event.record? path events).filter (·.program = id) := by
  rw [filter_entriesAt path id fun e he entry => hTold.program_of_launch he,
    filter_entriesAt path id fun e he entry => hTold.program_of_record he, hTold.launches_eq_records]

variable {plan : List Step} (hPlan : List.Forall₂ (StepAttached h fs) plan steps)

include hPlan

theorem attached_of_record {e : ProgramId × Event} {entry : Log × Run} (he : e ∈ events)
    (hEntry : e.2.record? = some entry) : ∃ step ∈ plan, Attached h fs step.logName entry.1 := by
  obtain ⟨report, hTells⟩ := hTold.exists_tells he
  obtain ⟨opened, hOpened, hLog⟩ :=
    hTells.runLog entry (List.mem_filterMap.mpr ⟨e.2, mem_eventsOf he, hEntry⟩)
  obtain ⟨step, hStep, hAttached⟩ := exists_attached hPlan hOpened
  exact ⟨step, hStep, hLog ▸ hAttached.runLog⟩

theorem attached_of_sample {e : ProgramId × Event} {entry : Log × Sample} (he : e ∈ events)
    (hEntry : e.2.sample? = some entry) : .fuzz ∈ plan ∧ Attached h fs coverageLog entry.1 := by
  obtain ⟨report, hTells⟩ := hTold.exists_tells he
  obtain ⟨opened, hOpened, hLog⟩ :=
    hTells.coverage entry (List.mem_filterMap.mpr ⟨e.2, mem_eventsOf he, hEntry⟩)
  obtain ⟨step, hStep, hAttached⟩ := exists_attached hPlan hOpened
  obtain ⟨rfl, hCoverage⟩ := hAttached.coverage entry.1 hLog
  exact ⟨hStep, hCoverage⟩

theorem records_perm (hNodup : (plan.map Step.logName).Nodup) :
    ((plan.map Step.logName).flatMap fun name =>
        entriesAt Event.record? (h.config.logPath name) events).Perm
      ((events.filterMap (·.2.record?)).map Prod.snd) := by
  have hPaths : ((plan.map Step.logName).map h.config.logPath).Nodup := by
    refine hNodup.map_on fun name hName name' hName' hSame => ?_
    obtain ⟨step, -, rfl⟩ := List.mem_map.mp hName
    obtain ⟨step', -, rfl⟩ := List.mem_map.mp hName'
    exact logPath_inj (List.mem_cons_of_mem _ step.logName_mem.1)
      (List.mem_cons_of_mem _ step'.logName_mem.1) hSame
  have hKeys : ∀ entry ∈ events.filterMap (·.2.record?),
      entry.1.path ∈ (plan.map Step.logName).map h.config.logPath := by
    intro entry hEntry
    obtain ⟨e, he, hRecord⟩ := List.mem_filterMap.mp hEntry
    obtain ⟨step, hStep, hAttached⟩ := hTold.attached_of_record hPlan he hRecord
    rw [hAttached.path]
    exact List.mem_map_of_mem (List.mem_map_of_mem hStep)
  have hPerm := (perm_flatMap_filter (fun entry : Log × Run => entry.1.path) hPaths hKeys).map Prod.snd
  rw [List.flatMap_map, List.map_flatMap] at hPerm
  exact hPerm

theorem samples_eq :
    entriesAt Event.sample? (h.config.logPath coverageLog) events =
      (events.filterMap (·.2.sample?)).map Prod.snd := by
  rw [entriesAt, List.filter_eq_self.mpr]
  intro entry hEntry
  obtain ⟨e, he, hSample⟩ := List.mem_filterMap.mp hEntry
  exact decide_eq_true (hTold.attached_of_sample hPlan he hSample).2.path

end Told

/-! ## Lines of a batch -/

theorem writtenTo_of_no_samples {path : Location}
    (hNone : ∀ e ∈ events, ∀ entry, e.2.sample? = some entry → entry.1.path ≠ path) :
    writtenTo (·.path = path) events =
      (entriesAt Event.record? path events).map fun r => r.toEntry.toJson := by
  induction events with
  | nil => rfl
  | cons e events ih =>
    obtain ⟨hHead, hTail⟩ := List.forall_mem_cons.mp hNone
    have ih := ih hTail
    rcases e with ⟨program, _ | ⟨log, result⟩ | ⟨coverage, value⟩⟩
    · exact ih
    · simp only [writtenTo, entriesAt, List.filterMap_cons, written?, Event.record?, List.filter_cons]
        at ih ⊢
      split
      · simp only [List.map_cons, ih]
      · exact ih
    · have hOther : coverage.path ≠ path := hHead (coverage, value) rfl
      simp only [writtenTo, entriesAt, List.filterMap_cons, written?, Event.record?, List.filter_cons,
        hOther, decide_false, Bool.false_eq_true, if_false] at ih ⊢
      exact ih

theorem writtenTo_of_no_records {path : Location}
    (hNone : ∀ e ∈ events, ∀ entry, e.2.record? = some entry → entry.1.path ≠ path) :
    writtenTo (·.path = path) events = (entriesAt Event.sample? path events).map Sample.toJson := by
  induction events with
  | nil => rfl
  | cons e events ih =>
    obtain ⟨hHead, hTail⟩ := List.forall_mem_cons.mp hNone
    have ih := ih hTail
    rcases e with ⟨program, _ | ⟨log, result⟩ | ⟨coverage, value⟩⟩
    · exact ih
    · have hOther : log.path ≠ path := hHead (log, result) rfl
      simp only [writtenTo, entriesAt, List.filterMap_cons, written?, Event.sample?, List.filter_cons,
        hOther, decide_false, Bool.false_eq_true, if_false] at ih ⊢
      exact ih
    · simp only [writtenTo, entriesAt, List.filterMap_cons, written?, Event.sample?, List.filter_cons]
        at ih ⊢
      split
      · simp only [List.map_cons, ih]
      · exact ih

theorem Attached.number_eq_iff {name' : String} {number : Nat} {old : Bytes} (hSound : fs.Sound)
    (hName : name ∈ skipLog :: runLogs) (hName' : name' ∈ skipLog :: runLogs)
    (hLog : Attached h fs name' log) (hStores : fs.Stores (h.config.logPath name) number old) :
    log.number = number ↔ log.path = h.config.logPath name := by
  obtain ⟨bytes, hHeld⟩ := hLog.stored
  rw [hLog.path]
  constructor
  · intro hNumber
    by_contra hNe
    refine hSound.number_ne ⟨_, name', _, name, rfl, rfl, plainName_log hName', plainName_log hName, ?_⟩
      hHeld hStores hNumber
    rintro rfl
    exact hNe rfl
  · intro hPath
    rw [hPath] at hHeld
    exact hHeld.number_eq hStores

/-- What the events of a batch add to the log of a name. -/
def entered (h : Harness) (events : List (ProgramId × Event)) (name : String) : List Json.Value :=
  if name = coverageLog then
    (entriesAt Event.sample? (h.config.logPath name) events).map Sample.toJson
  else (entriesAt Event.record? (h.config.logPath name) events).map fun r => r.toEntry.toJson

namespace Told

variable {plan : List Step} (hTold : Told steps events reports)
  (hPlan : List.Forall₂ (StepAttached h fs) plan steps)

include hTold hPlan

theorem attached_of_written {e : ProgramId × Event} {entry : Log × Json.Value} (he : e ∈ events)
    (hEntry : written? e.2 = some entry) : ∃ name ∈ runLogs, Attached h fs name entry.1 := by
  rcases e with ⟨program, _ | ⟨log, result⟩ | ⟨coverage, value⟩⟩
  · cases hEntry
  · cases hEntry
    obtain ⟨step, -, hAttached⟩ := hTold.attached_of_record hPlan he rfl
    exact ⟨_, step.logName_mem.1, hAttached⟩
  · cases hEntry
    exact ⟨_, by decide, (hTold.attached_of_sample hPlan he rfl).2⟩

theorem writtenTo_number {number : Nat} {old : Bytes} (hSound : fs.Sound)
    (hName : name ∈ skipLog :: runLogs) (hStores : fs.Stores (h.config.logPath name) number old) :
    writtenTo (·.number = number) events = writtenTo (·.path = h.config.logPath name) events := by
  rw [writtenTo, writtenTo]
  congr 1
  refine List.filter_congr fun entry hEntry => ?_
  obtain ⟨e, he, hValue⟩ := List.mem_filterMap.mp hEntry
  obtain ⟨name', hName', hAttached⟩ := hTold.attached_of_written hPlan he hValue
  rw [decide_eq_decide]
  exact hAttached.number_eq_iff hSound hName (List.mem_cons_of_mem _ hName') hStores

theorem writtenTo_skipLog : writtenTo (·.path = h.config.logPath skipLog) events = [] := by
  rw [writtenTo, List.map_eq_nil_iff, List.filter_eq_nil_iff]
  intro entry hEntry hPath
  obtain ⟨e, he, hValue⟩ := List.mem_filterMap.mp hEntry
  obtain ⟨name, hName, hAttached⟩ := hTold.attached_of_written hPlan he hValue
  have hNe : ∀ s ∈ runLogs, s ≠ skipLog := by decide
  exact hNe name hName (logPath_inj (List.mem_cons_of_mem _ hName) List.mem_cons_self
    (hAttached.path.symm.trans (of_decide_eq_true hPath)))

theorem writtenTo_eq (hName : name ∈ skipLog :: runLogs) :
    writtenTo (·.path = h.config.logPath name) events = h.entered events name := by
  rw [entered]
  split
  · rename_i hCoverage
    subst hCoverage
    refine writtenTo_of_no_records fun e he entry hEntry hPath => ?_
    obtain ⟨step, -, hAttached⟩ := hTold.attached_of_record hPlan he hEntry
    exact step.logName_mem.2 (logPath_inj (List.mem_cons_of_mem _ step.logName_mem.1) hName
      (hAttached.path.symm.trans hPath))
  · rename_i hCoverage
    refine writtenTo_of_no_samples fun e he entry hEntry hPath => ?_
    have hAttached := (hTold.attached_of_sample hPlan he hEntry).2
    exact hCoverage (logPath_inj hName (by decide) (hPath.symm.trans hAttached.path))

end Told

/-! ## Batches -/

/-- What a batch adds to the log of a name. -/
def appended (h : Harness) (workflow : Workflow) (events : List (ProgramId × Event))
    (skipped : List (ProgramId × Skip)) (name : String) : List Json.Value :=
  if name = skipLog then (skipEntries workflow skipped).map Skip.Entry.toJson else h.entered events name

/-- Only the harness writes to its logs. -/
structure Aloof (h : Harness) (run : Runner σ) (meanwhile : World σ → World σ → Prop) : Prop where
  run : ∀ name ∈ skipLog :: runLogs, run.LeavesAlone (h.config.logPath name)
  meanwhile : ∀ name ∈ skipLog :: runLogs, ∀ number w w', meanwhile w w' →
    Spares (h.config.logPath name) number w.files w'.files

section Batch

variable (hSound : w.files.Sound) (hSkips : Gives (h.openLog skipLog) w skips w₀)
  (hSteps : Gives (workflow.steps.mapM h.openStep) w₀ steps w₁)
  (hCourses : Interleaved run meanwhile w₁ (h.courses run steps ids) events reports w₂)

include hSound hSkips hSteps

theorem exists_read_of_open (hName : name ∈ skipLog :: workflow.logs) :
    ∃ old, w₁.files.read (h.config.logPath name) = .ok old := by
  obtain ⟨hSound₀, -, -⟩ := gives_openLog hSound hSkips
  obtain ⟨-, hSkipsOpened, -⟩ := gives_openAll hSound hSkips hSteps
  have hPlan := attached_openSteps hSound₀ hSteps
  have hRead : ∀ {name log}, Opened h w₁.files name log →
      ∃ old, w₁.files.read (h.config.logPath name) = .ok old := by
    intro name log hOpened
    obtain ⟨bytes, hStores⟩ := hOpened.stored
    exact ⟨bytes, hStores.read⟩
  have hRuns : ∀ {name}, name ∈ workflow.runLogs →
      ∃ old, w₁.files.read (h.config.logPath name) = .ok old := by
    intro name hName
    obtain ⟨step, hStep, rfl⟩ := List.mem_map.mp hName
    obtain ⟨opened, hOpened⟩ := exists_opened hPlan hStep
    exact hRead hOpened.runLog.toOpened
  rcases List.mem_cons.mp hName with rfl | hName
  · exact hRead hSkipsOpened
  · rw [Workflow.logs] at hName
    split at hName
    · rename_i hFuzz
      rcases List.mem_cons.mp hName with rfl | hName
      · obtain ⟨opened, hOpened⟩ := exists_opened hPlan hFuzz
        obtain ⟨coverage, hCoverage⟩ := Option.isSome_iff_exists.mp (hOpened.covered rfl)
        exact hRead (hOpened.coverage coverage hCoverage).2.toOpened
      · exact hRuns hName
    · exact hRuns hName

theorem read_of_open {old : Bytes} (hRead : w.files.read (h.config.logPath name) = .ok old) :
    w₁.files.read (h.config.logPath name) = .ok old := by
  obtain ⟨number, hStores⟩ := hSound.stores_of_read hRead
  obtain ⟨hSound₀, hGrows₀, -⟩ := gives_openLog hSound hSkips
  obtain ⟨-, hGrows₁, -⟩ := gives_openSteps hSound₀ hSteps
  exact ((hGrows₀.trans hGrows₁).spares old hStores).read

include hCourses

theorem read_of_batch {old : Bytes} (hIds : ids.Nodup) (hAloof : h.Aloof run meanwhile)
    (hRecord : Gives (recordSkips skips workflow
      (BatchSummary.of h.runName workflow reports).skipped) w₂ ⟨⟩ w')
    (hName : name ∈ skipLog :: runLogs) (hRead : w₁.files.read (h.config.logPath name) = .ok old) :
    w'.files.read (h.config.logPath name) = .ok (old ++ (h.appended workflow events
      (BatchSummary.of h.runName workflow reports).skipped name).flatMap Log.line) := by
  obtain ⟨hSound₀, -, -⟩ := gives_openLog hSound hSkips
  obtain ⟨hSound₁, hSkipsOpened, -⟩ := gives_openAll hSound hSkips hSteps
  have hPlan := attached_openSteps hSound₀ hSteps
  have hTold := hCourses.told hIds
  obtain ⟨number, hStores⟩ := hSound₁.stores_of_read hRead
  have hKeeps : ∀ job ∈ h.courses run steps ids, job.2.Keeps (h.config.logPath name) := by
    intro job hJob
    obtain ⟨id, -, rfl⟩ := List.mem_map.mp hJob
    exact .steps (h.reserved_logPath hName) (hAloof.run name hName) id steps
  have hPosition : ∀ e ∈ events, ∀ log value, written? e.2 = some (log, value) →
      log.number = number → log.position = none := by
    intro e he log value hValue _
    obtain ⟨_, -, hAttached⟩ := hTold.attached_of_written hPlan he hValue
    exact hAttached.position
  have hBefore := hCourses.stores hKeeps (hAloof.run name hName) (hAloof.meanwhile name hName number)
    hPosition hStores
  rw [hTold.writtenTo_number hPlan hSound₁ hName hStores] at hBefore
  obtain ⟨_, hSkipsStores⟩ := hSkipsOpened.stored
  by_cases hSkip : name = skipLog
  · subst hSkip
    rw [hTold.writtenTo_skipLog hPlan, List.flatMap_nil, List.append_nil] at hBefore
    obtain rfl := hSkipsStores.number_eq hStores
    rw [appended, if_pos rfl]
    exact (stores_recordSkips hSkipsOpened.position hBefore hRecord).read
  · rw [hTold.writtenTo_eq hPlan hName] at hBefore
    have hNumber : skips.number ≠ number :=
      hSound₁.number_ne ⟨_, skipLog, _, name, rfl, rfl, plainName_log List.mem_cons_self,
        plainName_log hName, Ne.symm hSkip⟩ hSkipsStores hStores
    rw [appended, if_neg hSkip]
    exact ((sparing_recordSkips hNumber _ _).of_gives hRecord _ hBefore).read

/-- The summary counts the records of the logs, one for each launch, and the samples. The logs have got
these records and samples and the skips of the summary, and for each program the records are in the order
of its launches. The summary does not depend on the order in which the programs came to their ends. -/
theorem summary_counts_logs (hIds : ids.Nodup)
    (hRecord : Gives (recordSkips skips workflow
      (BatchSummary.of h.runName workflow reports).skipped) w₂ ⟨⟩ w') :
    let summary := BatchSummary.of h.runName workflow reports
    let records name := entriesAt Event.record? (h.config.logPath name) events
    let launches name := entriesAt Event.launch? (h.config.logPath name) events
    summary.Counts (workflow.runLogs.flatMap records) ∧
      (events.filterMap (·.2.launch?)).length = (workflow.runLogs.flatMap records).length ∧
      (∀ name ∈ workflow.runLogs, ∀ id : ProgramId,
        (records name).filter (·.program = id) = (launches name).filter (·.program = id)) ∧
      (entriesAt Event.sample? (h.config.logPath coverageLog) events).length = summary.samples ∧
      summary.skipped.Pairwise (fun a b => a.1.number ≤ b.1.number) ∧
      (∀ name ∈ skipLog :: workflow.logs, ∃ old, w₁.files.read (h.config.logPath name) = .ok old) ∧
      (∀ name ∈ skipLog :: runLogs, ∀ old, w.files.read (h.config.logPath name) = .ok old →
        w₁.files.read (h.config.logPath name) = .ok old) ∧
      (h.Aloof run meanwhile → ∀ name ∈ skipLog :: runLogs, ∀ old,
        w₁.files.read (h.config.logPath name) = .ok old →
        w'.files.read (h.config.logPath name) = .ok
          (old ++ (h.appended workflow events summary.skipped name).flatMap Log.line)) ∧
      ∀ runName reports', reports'.Perm reports →
        BatchSummary.of runName workflow reports' = { summary with runName := runName } := by
  intro summary records launches
  obtain ⟨hSound₀, -, -⟩ := gives_openLog hSound hSkips
  have hPlan := attached_openSteps hSound₀ hSteps
  have hTold := hCourses.told hIds
  have hRecords : (workflow.runLogs.flatMap records).Perm ((events.filterMap (·.2.record?)).map Prod.snd) :=
    hTold.records_perm hPlan workflow.nodup_runLogs
  refine ⟨BatchSummary.counts_of_perm (hRecords.trans hTold.runs_perm), ?_,
    fun name _ id => (hTold.launches_in_order _ id).symm, ?_, BatchSummary.pairwise_skipped _ _ _,
    fun name hName => exists_read_of_open hSound hSkips hSteps hName,
    fun name _ old hRead => read_of_open hSound hSkips hSteps hRead,
    fun hAloof name hName old hRead =>
      read_of_batch hSound hSkips hSteps hCourses hIds hAloof hRecord hName hRead,
    fun runName reports' hPerm => BatchSummary.of_perm runName hTold.nodup hPerm⟩
  · rw [hRecords.length_eq, List.length_map, hTold.length_launches]
  · rw [hTold.samples_eq hPlan, List.length_map, hTold.length_samples, BatchSummary.samples_eq]

end Batch

/-- A batch that takes one program after the other is one of those with several under way. -/
theorem interleaved_of_runWorkflow {summary : BatchSummary}
    (hBatch : Gives (h.runWorkflow run workflow ids) w summary w') :
    ∃ skips w₀ steps w₁ events reports w₂, Gives (h.openLog skipLog) w skips w₀ ∧
      Gives (workflow.steps.mapM h.openStep) w₀ steps w₁ ∧
      Interleaved run meanwhile w₁ (h.courses run steps ids) events reports w₂ ∧
      Gives (recordSkips skips workflow (BatchSummary.of h.runName workflow reports).skipped) w₂ ⟨⟩ w' ∧
      summary = .of h.runName workflow reports := by
  have hParts := hBatch
  rw [runWorkflow_eq] at hParts
  simp only [Gives.bind_iff, Gives.pure_iff] at hParts
  obtain ⟨skips, w₀, hSkips, steps, w₁, hSteps, reports, w₂, hReports, _, _, hRecord, rfl, rfl⟩ := hParts
  obtain ⟨events, hCourses⟩ := interleaved_of_runAll hReports
  exact ⟨skips, w₀, steps, w₁, events, reports, w₂, hSkips, hSteps, hCourses, hRecord, rfl⟩

/-- The program that has a source is run once in full, and that is the one record. -/
theorem present_program_counted :
    ∃ summary w' events,
      Gives (bench.runWorkflow idle .experiment2 [absent, present]) calm summary w' ∧
      summary.ok = 1 ∧ (Workflow.experiment2.runLogs.flatMap fun name =>
        entriesAt Event.record? (bench.config.logPath name) events).length = 1 ∧
      w'.files.read (bench.config.logPath skipLog) = .ok (Text.encode "?\n" ++
        ((skipEntries .experiment2 summary.skipped).map Skip.Entry.toJson).flatMap Log.line) := by
  obtain ⟨hOpens, hRuns⟩ :
      bench.opens calm smallSkips smallFull smallTargeted = true ∧
      ((bench.runAll idle [.full smallFull, .targeted smallTargeted]
        [absent, present]).run.run (bench.ready calm)).1.toOption.any
          (fun reports => (BatchSummary.reportedRuns reports).map Run.status = [.ok]) = true := by
    decide +kernel
  obtain ⟨_, hSkipsOpen, hStepsOpen⟩ := gives_of_opens hOpens
  obtain ⟨found, _, hFound, hStatus⟩ := Gives.exists_of_any hRuns
  obtain ⟨w', hBatch⟩ := exists_gives_runWorkflow hSkipsOpen hStepsOpen hFound
  -- The summary counts one run, which ended well.
  obtain ⟨r, hRuns, hOk⟩ := List.map_eq_singleton_iff.mp (of_decide_eq_true hStatus)
  have hCounts : (BatchSummary.of bench.runName .experiment2 found).Counts [r] :=
    BatchSummary.counts_of_perm (by rw [hRuns])
  obtain ⟨skips, w₀, steps, w₁, events, reports, w₂, hSkips, hSteps, hCourses, hRecord, hSummary⟩ :=
    interleaved_of_runWorkflow hBatch
  have hSound : calm.files.Sound := .of_names (by decide) (by decide)
  have hAloof : bench.Aloof idle fun _ _ => False :=
    ⟨fun name _ => leavesAlone_idle _, fun _ _ _ _ _ hFalse => hFalse.elim⟩
  have hRead : calm.files.read (bench.config.logPath skipLog) = .ok (Text.encode "?\n") := by
    decide +kernel
  obtain ⟨hAll, -, -, -, -, -, hBefore, hAfter, -⟩ :=
    summary_counts_logs hSound hSkips hSteps hCourses (by decide) hRecord
  refine ⟨_, w', events, hBatch, ?_, ?_, ?_⟩
  · rw [← hCounts.ok]
    simp [hOk]
  · rw [hAll.all, ← hSummary, ← hCounts.all]
    rfl
  · rw [hSummary]
    exact hAfter hAloof skipLog List.mem_cons_self _ (hBefore skipLog List.mem_cons_self _ hRead)

end Harness

end Reanalysis
