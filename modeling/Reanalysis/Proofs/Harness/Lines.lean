import Reanalysis.Proofs.Harness.Batch
import Reanalysis.Proofs.Log.Record

/-!
# What steps write to their logs

A full or targeted step that comes to its end has passed over its program or run it once. Each run that
it reports stands in its log as a line behind all others.
-/

namespace Reanalysis

open Files (Location)

variable {σ : Type} {w w' : World σ} {path : Location} {number : Nat}

/-! ## Lines of runs -/

/-- These runs have been added to the file that is stored at the location under this number. -/
def Files.Adds (path : Location) (number : Nat) (runs : List Run) (fs fs' : Files) : Prop :=
  ∀ old, fs.Stores path number old →
    fs'.Stores path number (old ++ (runs.map fun r => r.toEntry.toJson).flatMap Log.line)

namespace Files

variable {fs fs' fs'' : Files} {runs more : List Run}

theorem Spares.adds (h : Spares path number fs fs') : Adds path number [] fs fs' := by
  intro old hStores
  rw [List.map_nil, List.flatMap_nil, List.append_nil]
  exact h old hStores

theorem Adds.trans (h : Adds path number runs fs fs') (h' : Adds path number more fs' fs'') :
    Adds path number (runs ++ more) fs fs'' := by
  intro old hStores
  rw [List.map_append, List.flatMap_append, ← List.append_assoc]
  exact h' _ (h old hStores)

end Files

/-- The runner has come back with this outcome. -/
def Runner.Emits (run : Runner σ) (o : Outcome) : Prop := ∃ command w, ((run command).run w).1 = o

namespace Harness

open HarnessAction

variable {h : Harness} {run : Runner σ} {log : Log} {id : ProgramId} {report : StepReport}

section Recording

variable (hPosition : log.position = none) (hLeaves : run.LeavesAlone path)

include hPosition hLeaves

theorem adds_execute {command : Command} {mode : Mode} {result : Run × String}
    (hRun : Gives (execute run log command id mode none) w result w') :
    (∃ o, run.Emits o ∧ result.1 = o.toRun id mode none) ∧
      Files.Adds path log.number [result.1] w.files w'.files := by
  simp only [execute, Gives.bind_iff, gives_ofStore_iff, Gives.pure_iff] at hRun
  obtain ⟨o, w₁, hOutcome, _, _, ⟨fs, hAppend, rfl⟩, rfl, rfl⟩ := hRun
  have hOutcome := Gives.lift_iff.mp hOutcome
  refine ⟨⟨o, ⟨command, w, by rw [hOutcome]⟩, rfl⟩, fun old hStores => ?_⟩
  have hSpares := hLeaves command w log.number
  rw [hOutcome] at hSpares
  obtain ⟨rfl, -, -⟩ := Log.gives_append_end (hSpares old hStores).content_eq
    (Log.atEnd_of_none hPosition old) hAppend
  simpa using (hSpares old hStores).setContent _

variable (hPath : Reserved path)

include hPath

theorem fullStep_cases (hRun : Gives (h.fullStep run log id) w report w') :
    (w.files.isFile (h.corpus.sourcePath id) = false ∧ w' = w ∧
      report = .ofSkip (.missingSource (h.corpus.sourcePath id))) ∨
    w.files.isFile (h.corpus.sourcePath id) = true ∧ ∃ o, run.Emits o ∧
      report = .ofRun (o.toRun id .full none) ∧
      Files.Adds path log.number [o.toRun id .full none] w.files w'.files := by
  refine (gives_withSource hRun).imp_right (And.imp_right fun hRun => ?_)
  simp only [Gives.bind_iff, gives_files_iff, gives_ofCommand_iff] at hRun
  obtain ⟨base, _, hBase, _, _, ⟨rfl, rfl⟩, command, _, ⟨-, rfl⟩, found, w₁, hDiscard,
    _, _, ⟨rfl, rfl⟩, result, w₂, hExecute, _, _, ⟨rfl, rfl⟩, hRest⟩ := hRun
  obtain ⟨rfl, -⟩ := gives_digestOf_iff.mp hBase
  obtain ⟨⟨o, hEmits, hResult⟩, hAdds⟩ := adds_execute hPosition hLeaves hExecute
  have hBefore : Files.Spares path log.number _ w₁.files :=
    (sparing_ofStore (h.store.sparing_discard hPath id)).of_gives hDiscard
  -- Whether the state is kept or dropped, the log has got its line before.
  have hAfter : report = .ofRun result.1 ∧ Files.Spares path log.number w₂.files w'.files := by
    split at hRest
    · simp only [Gives.bind_iff, Gives.pure_iff] at hRest
      obtain ⟨_, _, hKeep, rfl, rfl⟩ := hRest
      exact ⟨rfl, (sparing_keepState hPath _ _).of_gives hKeep⟩
    · simp only [Gives.bind_iff, Gives.pure_iff] at hRest
      obtain ⟨_, _, hDrop, rfl, rfl⟩ := hRest
      exact ⟨rfl, (sparing_dropState hPath _).of_gives hDrop⟩
  rw [hResult] at hAdds hAfter
  refine ⟨o, hEmits, hAfter.1, ?_⟩
  simpa using (hBefore.adds.trans hAdds).trans hAfter.2.adds

theorem targetedStep_cases (hRun : Gives (h.targetedStep run log id) w report w') :
    (w.files.isFile (h.corpus.sourcePath id) = false ∧ w' = w ∧
      report = .ofSkip (.missingSource (h.corpus.sourcePath id))) ∨
    w.files.isFile (h.corpus.sourcePath id) = true ∧
      ((∃ skip, report = .ofSkip skip ∧ Files.Spares path log.number w.files w'.files) ∨
      ∃ o mode, run.Emits o ∧ (mode = .targeted ∨ mode = .cold) ∧
        report = .ofRun (o.toRun id mode none) ∧
        Files.Adds path log.number [o.toRun id mode none] w.files w'.files) := by
  rw [targetedStep_eq] at hRun
  refine (gives_withSource hRun).imp_right (And.imp_right fun hRun => ?_)
  rcases gives_withSource hRun with ⟨-, rfl, rfl⟩ | ⟨-, hRun⟩
  · exact .inl ⟨_, rfl, .refl _ _ _⟩
  rw [Gives.bind_iff] at hRun
  obtain ⟨message, w₁, hDiff, hRun⟩ := hRun
  have hBefore : Files.Spares path log.number w.files w₁.files :=
    (sparing_extractDiff hPath hLeaves _ _ _).of_gives hDiff
  cases message with
  | some message =>
    obtain ⟨rfl, rfl⟩ := Gives.pure_iff.mp hRun
    exact .inl ⟨_, rfl, hBefore⟩
  | none =>
    simp only [Gives.bind_iff, Gives.pure_iff] at hRun
    obtain ⟨⟨command, mode⟩, w₂, hChosen, result, _, hExecute, rfl, rfl⟩ := hRun
    obtain ⟨rfl, hMode, -⟩ := gives_chooseRun hChosen
    obtain ⟨⟨o, hEmits, hResult⟩, hAdds⟩ := adds_execute hPosition hLeaves hExecute
    rw [hResult] at hAdds ⊢
    exact .inr ⟨o, mode, hEmits, hMode, rfl, hBefore.adds.trans hAdds⟩

end Recording

end Harness

/-! ## Lines of batches -/

/-- The runs of a step that go to the file with this number. -/
def StepTaken.runsIn (number : Nat) (t : StepTaken) : List Run :=
  if t.step.logs.any (·.number = number) then t.report.runs else []

namespace Harness

variable {h : Harness} {run : Runner σ} {t : StepTaken} {ts : List StepTaken}

/-- A full or targeted step that writes behind what its log holds. -/
def Exploring (step : OpenStep) : Prop :=
  ∃ log : Log, log.position = none ∧ (step = .full log ∨ step = .targeted log)

theorem logs_of_exploring {step : OpenStep} {log : Log}
    (hStep : step = .full log ∨ step = .targeted log) : step.logs = [log] := by
  rcases hStep with rfl | rfl <;> rfl

section Runs

variable (hPath : Reserved path) (hLeaves : run.LeavesAlone path)

include hPath hLeaves

theorem runStep_cases {log : Log} (hPosition : log.position = none)
    (hStep : t.step = .full log ∨ t.step = .targeted log)
    (hRun : Gives (h.runStep run t.program t.step) w t.report w') :
    t.report.runs = [] ∧ Files.Spares path log.number w.files w'.files ∨
      ∃ o mode, run.Emits o ∧ t.report.runs = [o.toRun t.program mode none] ∧
        Files.Adds path log.number [o.toRun t.program mode none] w.files w'.files := by
  rcases hStep with hStep | hStep
  · rw [hStep] at hRun
    rcases fullStep_cases hPosition hLeaves hPath hRun with
      ⟨-, rfl, hReport⟩ | ⟨-, o, hEmits, hReport, hAdds⟩
    · exact .inl ⟨by rw [hReport]; rfl, .refl _ _ _⟩
    · exact .inr ⟨o, .full, hEmits, by rw [hReport]; rfl, hAdds⟩
  · rw [hStep] at hRun
    rcases targetedStep_cases hPosition hLeaves hPath hRun with
      ⟨-, rfl, hReport⟩ | ⟨-, ⟨skip, hReport, hSpares⟩ | ⟨o, mode, hEmits, -, hReport, hAdds⟩⟩
    · exact .inl ⟨by rw [hReport]; rfl, .refl _ _ _⟩
    · exact .inl ⟨by rw [hReport]; rfl, hSpares⟩
    · exact .inr ⟨o, mode, hEmits, by rw [hReport]; rfl, hAdds⟩

theorem runStep_reports (hStep : Exploring t.step)
    (hRun : Gives (h.runStep run t.program t.step) w t.report w') :
    ∀ r ∈ t.report.runs, ∃ o mode, run.Emits o ∧ r = o.toRun t.program mode none := by
  obtain ⟨log, hPosition, hStep⟩ := hStep
  intro r hr
  rcases runStep_cases hPath hLeaves hPosition hStep hRun with ⟨hRuns, -⟩ | ⟨o, mode, hEmits, hRuns, -⟩
  · simp [hRuns] at hr
  · rw [hRuns, List.mem_singleton] at hr
    exact ⟨o, mode, hEmits, hr⟩

theorem runStep_adds (hStep : Exploring t.step)
    (hRun : Gives (h.runStep run t.program t.step) w t.report w') :
    Files.Adds path number (t.runsIn number) w.files w'.files := by
  obtain ⟨log, hPosition, hStep⟩ := hStep
  have hLogs := logs_of_exploring hStep
  rw [StepTaken.runsIn, hLogs]
  by_cases hNumber : log.number = number
  · subst hNumber
    rw [if_pos (by simp)]
    rcases runStep_cases hPath hLeaves hPosition hStep hRun with
      ⟨hRuns, hSpares⟩ | ⟨o, mode, -, hRuns, hAdds⟩
    · rw [hRuns]
      exact hSpares.adds
    · rw [hRuns]
      exact hAdds
  · -- The step writes to another file than this one.
    rw [if_neg (by simpa using hNumber)]
    refine Files.Spares.adds ((sparing_runStep hPath hLeaves t.program ?_).of_gives hRun)
    rw [hLogs]
    simpa using hNumber

theorem Performs.adds (hSteps : ∀ t ∈ ts, Exploring t.step) (hAll : Performs h run w ts w') :
    Files.Adds path number (ts.flatMap (·.runsIn number)) w.files w'.files := by
  induction hAll with
  | nil w => exact (Files.Spares.refl _ _ _).adds
  | cons hStep _ ih =>
    obtain ⟨hHead, hTail⟩ := List.forall_mem_cons.mp hSteps
    exact (runStep_adds hPath hLeaves hHead hStep).trans (ih hTail)

theorem Performs.reports (hSteps : ∀ t ∈ ts, Exploring t.step) (hAll : Performs h run w ts w') :
    ∀ t ∈ ts, ∀ r ∈ t.report.runs, ∃ o mode, run.Emits o ∧ r = o.toRun t.program mode none := by
  induction hAll with
  | nil w => nofun
  | cons hStep _ ih =>
    obtain ⟨hHead, hTail⟩ := List.forall_mem_cons.mp hSteps
    exact List.forall_mem_cons.mpr ⟨runStep_reports hPath hLeaves hHead hStep, ih hTail⟩

end Runs

end Harness

end Reanalysis
