import Reanalysis.Proofs.Harness.Changes
import Reanalysis.Proofs.Harness.Skipped
import Reanalysis.Proofs.Harness.Lines

/-!
# Targeted steps

With changes that the harness computes itself, a targeted step passes over its program exactly when the
changes cannot be had, and then nothing is launched. Otherwise the engine is launched once, on changes
that were computed from both versions as they are, and on the stored state only if that belongs to the
base version.
-/

namespace Reanalysis

open Files (Location)

theorem Diff.Document.baseDigest_ofScripts {program : ProgramId} {base modified : String}
    {d : Diff.Document} (h : ofScripts program base modified = .ok d) :
    d.header.baseDigest = .ofText base := by
  rw [ofScripts] at h
  cases hBase : Script.parse base with
  | error p =>
    rw [hBase] at h
    cases h
  | ok baseTree =>
    cases hModified : Script.parse modified with
    | error p =>
      rw [hBase, hModified] at h
      cases h
    | ok modifiedTree =>
      rw [hBase, hModified] at h
      cases h
      rfl

theorem Files.read_of_readText {fs : Files} {p : Location} {text : String}
    (h : fs.readText p = .ok text) : fs.read p = .ok (Text.encode text) := by
  rw [readText] at h
  cases hRead : fs.read p with
  | error e =>
    rw [hRead] at h
    cases h
  | ok bytes =>
    rw [hRead] at h
    cases hDecoded : Text.decode? bytes with
    | none => simp [bind, Except.bind, hDecoded, throw, throwThe, MonadExceptOf.throw] at h
    | some s =>
      simp only [bind, Except.bind, hDecoded] at h
      cases h
      rw [Text.eq_encode_of_decode? hDecoded]

namespace Harness

open HarnessAction

variable {σ : Type} {h : Harness} {run : Runner σ} {log : Log} {id : ProgramId} {report : StepReport}
  {w w' : World σ}

/-! ## What a targeted step does -/

theorem gives_withSource_iff {path : Location} {go : HarnessAction σ StepReport} :
    Gives (withSource path go) w report w' ↔
      w.files.isFile path = false ∧ w' = w ∧ report = .ofSkip (.missingSource path) ∨
        w.files.isFile path = true ∧ Gives go w report w' := by
  refine ⟨gives_withSource, ?_⟩
  rintro (⟨hMissing, rfl, rfl⟩ | ⟨hFile, hGo⟩)
  · exact gives_withSource_missing hMissing
  · rw [withSource, gives_files_bind_iff, hFile]
    exact hGo

abbrev computeDiff (h : Harness) (id : ProgramId) : Diff.Action DiffArtifact :=
  Diff.compute id (h.corpus.sourcePath id) (h.corpus.modifiedPath id) (h.config.diffPath id)

theorem gives_extractDiff_iff (hDiffer : h.config.differ.external? = none) {message : Option String} :
    Gives (h.extractDiff run id (h.corpus.sourcePath id) (h.corpus.modifiedPath id)
        (h.config.diffPath id)) w message w' ↔
      (message = none ∧ ∃ artifact fs, Gives (h.computeDiff id) w.files artifact fs ∧
        w' = { w with files := fs }) ∨
      ∃ e fs, message = some e.message ∧ Fails (h.computeDiff id) w.files e fs ∧
        w' = { w with files := fs } := by
  rw [extractDiff, hDiffer]
  dsimp only
  rw [Gives.get_bind_iff]
  rcases hRun : (h.computeDiff id).run.run w.files with ⟨e | artifact, fs⟩
  · have hFails : Fails (h.computeDiff id) w.files e fs := hRun
    simp only [Gives.bind_iff, Gives.set_iff, Gives.pure_iff]
    constructor
    · rintro ⟨_, _, rfl, rfl, rfl⟩
      exact .inr ⟨e, fs, rfl, hFails, rfl⟩
    · rintro (⟨-, _, _, hGives, -⟩ | ⟨_, _, rfl, hFails', rfl⟩)
      · exact absurd hGives hFails.not_gives
      · cases hFails.symm.trans hFails'
        exact ⟨⟨⟩, _, rfl, rfl, rfl⟩
  · have hGives : Gives (h.computeDiff id) w.files artifact fs := hRun
    simp only [Gives.bind_iff, Gives.set_iff, Gives.pure_iff]
    constructor
    · rintro ⟨_, _, rfl, rfl, rfl⟩
      exact .inl ⟨rfl, artifact, fs, hGives, rfl⟩
    · rintro (⟨rfl, _, _, hGives', rfl⟩ | ⟨_, _, -, hFails, -⟩)
      · cases hGives.symm.trans hGives'
        exact ⟨⟨⟩, _, rfl, rfl, rfl⟩
      · exact absurd hGives hFails.not_gives

/-- A version of the program is missing, or the changes between the two cannot be computed. -/
def Unready (h : Harness) (id : ProgramId) (fs : Files) : Prop :=
  fs.isFile (h.corpus.sourcePath id) = false ∨ fs.isFile (h.corpus.modifiedPath id) = false ∨
    ∃ e fs', Fails (h.computeDiff id) fs e fs'

/-- Passes over the program for a reason that is there before anything is launched. -/
inductive Skips (h : Harness) (id : ProgramId) (w : World σ) : StepReport → World σ → Prop
  | base (hBase : w.files.isFile (h.corpus.sourcePath id) = false) :
      Skips h id w (.ofSkip (.missingSource (h.corpus.sourcePath id))) w
  | modified (hBase : w.files.isFile (h.corpus.sourcePath id) = true)
      (hModified : w.files.isFile (h.corpus.modifiedPath id) = false) :
      Skips h id w (.ofSkip (.missingSource (h.corpus.modifiedPath id))) w
  | diff {e : DiffError} {fs : Files} (hBase : w.files.isFile (h.corpus.sourcePath id) = true)
      (hModified : w.files.isFile (h.corpus.modifiedPath id) = true)
      (hDiff : Fails (h.computeDiff id) w.files e fs) :
      Skips h id w (.ofSkip (.diffFailed e.message)) { w with files := fs }

/-- A targeted step passes over its program, or computes the changes, decides on a command and executes
it. -/
theorem gives_targetedStep_iff (hDiffer : h.config.differ.external? = none) :
    Gives (h.targetedStep run log id) w report w' ↔
      Skips h id w report w' ∨
      ¬ h.Unready id w.files ∧ ∃ artifact fs command mode result,
        Gives (h.computeDiff id) w.files artifact fs ∧
        Gives (h.chooseRun id) { w with files := fs } (command, mode) { w with files := fs } ∧
        Gives (execute run log command id mode none) { w with files := fs } result w' ∧
        report = .ofRun result.1 := by
  rw [targetedStep_eq, gives_withSource_iff, gives_withSource_iff, Gives.bind_iff]
  constructor
  · rintro (⟨hBase, rfl, rfl⟩ | ⟨hBase, ⟨hModified, rfl, rfl⟩ | ⟨hModified, message, w₁, hDiff, hRest⟩⟩)
    · exact .inl (.base hBase)
    · exact .inl (.modified hBase hModified)
    · rcases (gives_extractDiff_iff hDiffer).mp hDiff with
        ⟨rfl, artifact, fs, hComputed, rfl⟩ | ⟨e, fs, rfl, hFails, rfl⟩
      · simp only [Gives.bind_iff, Gives.pure_iff] at hRest
        obtain ⟨⟨command, mode⟩, w₂, hChosen, result, _, hExecute, rfl, rfl⟩ := hRest
        obtain ⟨rfl, -⟩ := gives_chooseRun hChosen
        refine .inr ⟨?_, artifact, fs, command, mode, result, hComputed, hChosen, hExecute, rfl⟩
        rintro (hMissing | hMissing | ⟨e, fs', hFails⟩)
        · rw [hBase] at hMissing
          cases hMissing
        · rw [hModified] at hMissing
          cases hMissing
        · exact hFails.not_gives hComputed
      · obtain ⟨rfl, rfl⟩ := Gives.pure_iff.mp hRest
        exact .inl (.diff hBase hModified hFails)
  · rintro (hSkips | ⟨hReady, artifact, fs, command, mode, result, hComputed, hChosen, hExecute, rfl⟩)
    · cases hSkips with
      | base hBase => exact .inl ⟨hBase, rfl, rfl⟩
      | modified hBase hModified => exact .inr ⟨hBase, .inl ⟨hModified, rfl, rfl⟩⟩
      | @diff e fs hBase hModified hFails =>
        exact .inr ⟨hBase, .inr ⟨hModified, some e.message, _,
          (gives_extractDiff_iff hDiffer).mpr (.inr ⟨e, fs, rfl, hFails, rfl⟩),
          Gives.pure_iff.mpr ⟨rfl, rfl⟩⟩⟩
    · obtain ⟨hBase, hModified, -⟩ := not_or.mp hReady |>.imp_right not_or.mp
      refine .inr ⟨Bool.eq_true_of_not_eq_false hBase, .inr ⟨Bool.eq_true_of_not_eq_false hModified, none, _,
        (gives_extractDiff_iff hDiffer).mpr (.inl ⟨rfl, artifact, fs, hComputed, rfl⟩), ?_⟩⟩
      simp only [Gives.bind_iff, Gives.pure_iff]
      exact ⟨_, _, hChosen, _, _, hExecute, rfl, rfl⟩

/-- A diff that can be written is written. -/
theorem gives_computeDiff_of_hasDiff {fs fs' : Files} {bytes : Bytes} (hDiff : h.HasDiff id fs bytes)
    (hWritten : Gives ((Files.replacement (h.config.diffPath id) bytes).forM Diff.perform) fs ⟨⟩ fs') :
    ∃ artifact, Gives (h.computeDiff id) fs artifact fs' := by
  obtain ⟨artifact, hRun⟩ := run_compute hDiff
  exact ⟨artifact, hRun.trans (hWritten.run_bind _)⟩

theorem HasDiff.ready {fs fs' : Files} {bytes : Bytes} {artifact : DiffArtifact}
    (hDiff : h.HasDiff id fs bytes) (hComputed : Gives (h.computeDiff id) fs artifact fs') :
    ¬ h.Unready id fs := by
  obtain ⟨base, modified, d, hBase, hModified, -⟩ := hDiff
  rintro (hMissing | hMissing | ⟨e, fs'', hFails⟩)
  · rw [Files.isFile_of_read (Files.read_of_readText hBase)] at hMissing
    cases hMissing
  · rw [Files.isFile_of_read (Files.read_of_readText hModified)] at hMissing
    cases hMissing
  · exact hFails.not_gives hComputed

theorem gives_targetedStep_of_chosen {artifact : DiffArtifact} {bytes : Bytes} {fs : Files}
    {command : Command} {mode : Mode} {result : Run × String}
    (hDiffer : h.config.differ.external? = none) (hDiff : h.HasDiff id w.files bytes)
    (hComputed : Gives (h.computeDiff id) w.files artifact fs)
    (hChosen : Gives (h.chooseRun id) { w with files := fs } (command, mode) { w with files := fs })
    (hExecute : Gives (execute run log command id mode none) { w with files := fs } result w') :
    Gives (h.targetedStep run log id) w (.ofRun result.1) w' :=
  (gives_targetedStep_iff hDiffer).mpr (.inr ⟨hDiff.ready hComputed, artifact, fs, command, mode, result,
    hComputed, hChosen, hExecute, rfl⟩)

theorem Skips.unready (hSkips : Skips h id w report w') : h.Unready id w.files := by
  cases hSkips with
  | base hBase => exact .inl hBase
  | modified _ hModified => exact .inr (.inl hModified)
  | diff _ _ hFails => exact .inr (.inr ⟨_, _, hFails⟩)

/-! ## Whether there is a state -/

/-- There is no state of the program, or it was explored from another text, or its sidecar cannot be
used. -/
def NoState (h : Harness) (id : ProgramId) (base : Digest) (fs : Files) : Prop :=
  Gives (h.store.lookup id base) fs .absent fs ∨
    (∃ recorded, Gives (h.store.lookup id base) fs (.stale recorded) fs) ∨
    ∃ path cause, Fails (h.store.lookup id base) fs (.corruptMeta path cause) fs

theorem gives_usableState_none_iff {base : Digest} :
    Gives (h.usableState id base) w none w ↔ h.NoState id base w.files := by
  rw [NoState, usableState, Gives.get_bind_iff]
  have hSame := readOnly_lookup h.store id base w.files
  rcases hLookup : (h.store.lookup id base).run.run w.files with ⟨result, fs⟩
  rw [hLookup] at hSame
  subst hSame
  have hGives : ∀ lookup, Gives (h.store.lookup id base) w.files lookup w.files ↔
      result = .ok lookup := by
    intro lookup
    rw [Gives, hLookup, Prod.mk.injEq, and_iff_left rfl]
  have hFails : ∀ e, Fails (h.store.lookup id base) w.files e w.files ↔ result = .error e := by
    intro e
    rw [Fails, hLookup, Prod.mk.injEq, and_iff_left rfl]
  simp only [Gives.bind_iff, Gives.set_iff, exists_eq_left', exists_const, hGives, hFails]
  rcases result with e | lookup
  · cases e <;> simp
  · cases lookup <;> simp [CacheLookup.valid?]

/-! ## The files at the launch -/

theorem filesWithDiff_of_gives {fs fs' : Files} {artifact : DiffArtifact}
    (hComputed : Gives (h.computeDiff id) fs artifact fs') : h.filesWithDiff id fs = fs' :=
  congrArg Prod.snd hComputed

theorem apart_diff (h : Harness) (id : ProgramId) :
    Files.Apart (h.corpus.sourcePath id) (h.config.diffPath id) := by
  refine ⟨_, _, _, _, rfl, rfl, plainName_render id (by decide), plainName_diff id, fun hSame => ?_⟩
  have hLast := congrArg (fun s : String => s.toList.getLast?) hSame
  simp [String.toList_append, List.getLast?_append] at hLast

theorem read_source_filesWithDiff {fs : Files} {bytes : Bytes} (hSound : fs.Sound)
    (hRead : fs.read (h.corpus.sourcePath id) = .ok bytes) :
    (h.filesWithDiff id fs).read (h.corpus.sourcePath id) = .ok bytes := by
  obtain ⟨number, hStores⟩ := hSound.stores_of_read hRead
  exact (Diff.sparing_compute id _ _ (apart_diff h id) fs bytes hStores).read

theorem Opened.leads {fs : Files} {name : String} (hName : name ∈ skipLog :: runLogs)
    (hOpened : Opened h fs name log) : ∃ logs, fs.Leads h.config.logDir logs := by
  obtain ⟨bytes, ⟨place, hFound⟩, -⟩ := hOpened.stored
  obtain ⟨logs, hLogs, -⟩ := Files.exists_leads (plainName_log hName) (Files.place_of_find hFound).1
  exact ⟨logs, hLogs⟩

/-- The document was computed from both versions of the program as they are, and stands in the place of
the diff. -/
structure FreshDiff (h : Harness) (id : ProgramId) (fs : Files) (d : Diff.Document) : Prop where
  computed : ∃ base modified, fs.readText (h.corpus.sourcePath id) = .ok base ∧
    fs.readText (h.corpus.modifiedPath id) = .ok modified ∧
    Diff.Document.ofScripts id base modified = .ok d
  base : ∃ bytes, fs.read (h.corpus.sourcePath id) = .ok bytes ∧ d.header.baseDigest = .compute bytes
  written : (h.filesWithDiff id fs).read (h.config.diffPath id) = .ok (Text.encode d.render)

theorem exists_freshDiff {fs fs' : Files} {logs : Place} {artifact : DiffArtifact}
    (hLogs : fs.Leads h.config.logDir logs) (hComputed : Gives (h.computeDiff id) fs artifact fs') :
    ∃ d, h.FreshDiff id fs d := by
  obtain ⟨fs₁, -, -, ⟨bytes, artifact', hDiff, -, -, hGives, hRead⟩ | ⟨-, e, hFails⟩⟩ :=
    compute_cases hLogs id
  · obtain ⟨base, modified, d, hBase, hModified, hDocument, rfl⟩ := hDiff
    refine ⟨d, ⟨base, modified, hBase, hModified, hDocument⟩,
      ⟨_, Files.read_of_readText hBase, Diff.Document.baseDigest_ofScripts hDocument⟩, ?_⟩
    rw [filesWithDiff_of_gives hGives]
    exact hRead
  · exact absurd hComputed hFails.not_gives

/-! ## Once or not at all -/

/-- The program is passed over. No engine has a part in it, and no run is recorded. -/
structure PassesOver (h : Harness) (log : Log) (id : ProgramId) (w : World σ) (report : StepReport)
    (w' : World σ) : Prop where
  skipped : ∃ skip, report = .ofSkip skip
  unlaunched : ∀ run : Runner σ, Gives (h.targetedStep run log id) w report w'
  engine : w'.engine = w.engine
  log : Files.Spares (h.config.logPath targetedLog) log.number w.files w'.files

/-- The engine is launched once, with a command for the mode that the stored state allows, and its run
is recorded. -/
structure LaunchesOnce (h : Harness) (run : Runner σ) (log : Log) (id : ProgramId) (w : World σ)
    (report : StepReport) (w' : World σ) (d : Diff.Document) (mode : Mode) (command : Command) :
    Prop where
  launched : ∃ outcome left bytes,
    (run command).run { w with files := h.filesWithDiff id w.files } = (outcome, left) ∧
    report = .ofRun (outcome.toRun id mode none) ∧
    bytes = left.files.content log.number ++ Log.line (outcome.toRun id mode none).toEntry.toJson ∧
    w' = { left with files := left.files.setContent log.number bytes }
  log : run.LeavesAlone (h.config.logPath targetedLog) →
    Files.Adds (h.config.logPath targetedLog) log.number report.runs w.files w'.files
  targeted : mode = .targeted ↔ ∃ a, Gives (h.store.lookup id d.header.baseDigest)
    (h.filesWithDiff id w.files) (.valid a) (h.filesWithDiff id w.files)
  cold : mode = .cold ↔ h.NoState id d.header.baseDigest (h.filesWithDiff id w.files)
  matching : ∀ a, Gives (h.store.lookup id d.header.baseDigest) (h.filesWithDiff id w.files) (.valid a)
      (h.filesWithDiff id w.files) →
    Command.targeted (h.filesWithDiff id w.files) h.config.engine.targeted a.path (h.config.diffPath id)
      h.config.targetedTimeout = .ok command ∧
    ∀ recorded ∈ a.baseDigest, recorded = d.header.baseDigest

theorem Skips.passesOver (hDiffer : h.config.differ.external? = none)
    (hSkips : Skips h id w report w') : h.PassesOver log id w report w' := by
  refine ⟨?_, fun run => (gives_targetedStep_iff hDiffer).mpr (.inl hSkips), ?_, ?_⟩
  · cases hSkips <;> exact ⟨_, rfl⟩
  · cases hSkips <;> rfl
  · have hPath : Reserved (h.config.logPath targetedLog) := h.reserved_logPath (by decide)
    cases hSkips with
    | base _ => exact .refl _ _ _
    | modified _ _ => exact .refl _ _ _
    | diff _ _ hFails => exact (Diff.sparing_compute id _ _ (hPath.diff _ id)).of_fails hFails

theorem recorded_of_lookup {s : CacheStore} {base : Digest} {a : CacheArtifact} {fs fs' : Files}
    (hLookup : Gives (s.lookup id base) fs (.valid a) fs') : ∀ recorded ∈ a.baseDigest, recorded = base := by
  intro recorded hRecorded
  have hMatches := (gives_lookup_valid_iff.mp hLookup).2
  rw [CacheArtifact.matchesBase, hRecorded] at hMatches
  simpa using hMatches

theorem chooseRun_cases {fs : Files} {base : Bytes} {command : Command} {mode : Mode}
    (hBase : fs.read (h.corpus.sourcePath id) = .ok base)
    (hChosen : Gives (h.chooseRun id) { w with files := fs } (command, mode) { w with files := fs }) :
    (mode = .targeted ∧ ∃ a, Gives (h.store.lookup id (.compute base)) fs (.valid a) fs ∧
      Command.targeted fs h.config.engine.targeted a.path (h.config.diffPath id)
        h.config.targetedTimeout = .ok command) ∨
    mode = .cold ∧ h.NoState id (.compute base) fs := by
  obtain ⟨-, rfl | rfl, -⟩ := gives_chooseRun hChosen
  · obtain ⟨-, text, a, hText, hState, hCommand⟩ := gives_chooseRun_targeted_iff.mp hChosen
    cases hText.symm.trans hBase
    rw [gives_usableState_some_iff, ← gives_lookup_valid_iff] at hState
    exact .inl ⟨rfl, a, hState, hCommand⟩
  · obtain ⟨-, text, hText, hState, -⟩ := gives_chooseRun_cold hChosen
    cases hText.symm.trans hBase
    rw [gives_usableState_none_iff] at hState
    exact .inr ⟨rfl, hState⟩

theorem NoState.not_valid {base : Digest} {fs fs' : Files} {a : CacheArtifact}
    (hNone : h.NoState id base fs) : ¬ Gives (h.store.lookup id base) fs (.valid a) fs' := by
  intro hValid
  rcases hNone with hAbsent | ⟨recorded, hStale⟩ | ⟨path, cause, hFails⟩
  · cases hAbsent.symm.trans hValid
  · cases hStale.symm.trans hValid
  · exact hFails.not_gives hValid

/-- A targeted step that comes to its end passes over its program without a launch, and this exactly if
a version is missing or the changes cannot be computed; or else it launches the engine once, on changes
that it has just computed, and on the stored state exactly if that may be used with the base version. -/
theorem targetedStep_skips_or_launches_once (hDiffer : h.config.differ.external? = none)
    (hSound : w.files.Sound) (hOpened : Opened h w.files targetedLog log)
    (hStep : Gives (h.targetedStep run log id) w report w') :
    h.Unready id w.files ∧ h.PassesOver log id w report w' ∨
      ¬ h.Unready id w.files ∧ ∃ d mode command, h.FreshDiff id w.files d ∧
        h.LaunchesOnce run log id w report w' d mode command := by
  rcases (gives_targetedStep_iff hDiffer).mp hStep with
    hSkips | ⟨hReady, artifact, fs, command, mode, result, hComputed, hChosen, hExecute, rfl⟩
  · exact .inl ⟨hSkips.unready, hSkips.passesOver hDiffer⟩
  obtain ⟨logs, hLogs⟩ := hOpened.leads (by decide)
  obtain ⟨d, hFresh⟩ := exists_freshDiff hLogs hComputed
  obtain ⟨base, hBase, hDigest⟩ := hFresh.base
  obtain rfl := filesWithDiff_of_gives hComputed
  have hCases := chooseRun_cases (read_source_filesWithDiff hSound hBase) hChosen
  rw [← hDigest] at hCases
  refine .inr ⟨hReady, d, mode, command, hFresh, ?_, fun hLeaves => ?_, ?_, ?_, fun a hValid => ?_⟩
  · obtain ⟨outcome, left, bytes, hOutcome, hResult, hWorld, hBytes⟩ := gives_execute hExecute
    exact ⟨outcome, left, bytes, hOutcome, by rw [hResult], hBytes hOpened.position, hWorld⟩
  · have hPath : Reserved (h.config.logPath targetedLog) := h.reserved_logPath (by decide)
    have hBefore : Files.Spares (h.config.logPath targetedLog) log.number w.files
        (h.filesWithDiff id w.files) := Diff.sparing_compute id _ _ (hPath.diff _ id) w.files
    exact hBefore.adds.trans (adds_execute hOpened.position hLeaves hExecute).2
  · rcases hCases with ⟨rfl, a, hValid, -⟩ | ⟨rfl, hNone⟩
    · exact ⟨fun _ => ⟨a, hValid⟩, fun _ => rfl⟩
    · refine ⟨fun hMode => (by cases hMode), ?_⟩
      rintro ⟨a, hValid⟩
      exact absurd hValid hNone.not_valid
  · rcases hCases with ⟨rfl, a, hValid, -⟩ | ⟨rfl, hNone⟩
    · exact ⟨fun hMode => (by cases hMode), fun hNone => absurd hValid hNone.not_valid⟩
    · exact ⟨fun _ => hNone, fun _ => rfl⟩
  · rcases hCases with ⟨rfl, a', hValid', hCommand⟩ | ⟨rfl, hNone⟩
    · cases hValid'.symm.trans hValid
      exact ⟨hCommand, recorded_of_lookup hValid⟩
    · exact absurd hValid hNone.not_valid

/-! ## Versions without statements -/

/-- Writes down the changes between two versions without statements. -/
def writeBlank (h : Harness) (id : ProgramId) (base modified : String) (fs : Files) :
    Except DiffError PUnit × Files :=
  ((Files.replacement (h.config.diffPath id) (Text.encode
    (Diff.Document.ofTrees id base modified [] []).render)).forM Diff.perform).run.run fs

/-- Both versions are these texts, and their changes can be written down. -/
def Blank (h : Harness) (id : ProgramId) (base modified : String) (fs : Files) : Prop :=
  fs.readText (h.corpus.sourcePath id) = .ok base ∧ fs.readText (h.corpus.modifiedPath id) = .ok modified ∧
    (h.writeBlank id base modified fs).1.isOk = true

instance (id : ProgramId) (base modified : String) (fs : Files) :
    Decidable (h.Blank id base modified fs) :=
  inferInstanceAs (Decidable (_ ∧ _))

theorem Blank.computed {base modified : String} {fs : Files} (hBase : Script.IsBlank base.toList)
    (hModified : Script.IsBlank modified.toList) (hBlank : h.Blank id base modified fs) :
    ∃ bytes artifact, h.HasDiff id fs bytes ∧
      Gives (h.computeDiff id) fs artifact (h.writeBlank id base modified fs).2 := by
  obtain ⟨hRead, hRead', hOk⟩ := hBlank
  have hDiff := hasDiff_of_isBlank hRead hRead' hBase hModified
  obtain ⟨_, hWritten⟩ := Gives.exists_of_isOk hOk
  obtain ⟨artifact, hComputed⟩ := gives_computeDiff_of_hasDiff hDiff hWritten
  exact ⟨_, artifact, hDiff, hComputed⟩

/-! ## A program that cannot be read, and one that can -/

/-- Both versions and a state of the second program are there. -/
def changed (base modified : Bytes) : World Unit :=
  ⟨⟨[(["randjs"], .directory), (["randjs", "2.jse.js"], .file 0), (["randjs", "2.jse.diff.js"], .file 1),
    (["results"], .directory), (["results", "JSE2"], .directory), (["results", "JSE2", "cache"], .file 2),
    (["experiments"], .directory), (["experiments", "jse_diff_analysis"], .file 3)],
    [base, modified, [7], []]⟩, ()⟩

theorem opened_changed (base modified : Bytes) :
    Opened bench (changed base modified).files targetedLog smallTargeted := by
  have hFound : (changed base modified).files.find (bench.config.logPath targetedLog) =
      .ok (["experiments", "jse_diff_analysis"], .file 3) := rfl
  exact ⟨rfl, [], ⟨_, hFound⟩, rfl⟩

/-- The base version is no text. -/
def garbled : World Unit := changed [255] []

/-- The modified version has a line break more. -/
def blank : World Unit := changed [] [10]

/-- What the second program is run with on its changes. -/
def blankCommand : Command :=
  ⟨"engine", ["--diff", "--cache=results/JSE2/cache", "--diffFile=experiments/diffs/2.diff"],
    bench.config.targetedTimeout⟩

theorem gives_targetedStep_blank :
    ∃ report w', Gives (bench.targetedStep idle smallTargeted present) blank report w' ∧
      ¬ bench.Unready present blank.files ∧
      Gives (bench.chooseRun present) ⟨bench.filesWithDiff present blank.files, ()⟩ (blankCommand, .targeted)
        ⟨bench.filesWithDiff present blank.files, ()⟩ := by
  obtain ⟨hBlank, hChosen, hEnds⟩ : bench.Blank present "" "\n" blank.files ∧
      ((bench.chooseRun present).run.run
        ⟨(bench.writeBlank present "" "\n" blank.files).2, ()⟩).1.toOption =
          some (blankCommand, .targeted) ∧
      ((execute idle smallTargeted blankCommand present .targeted none).run.run
        ⟨(bench.writeBlank present "" "\n" blank.files).2, ()⟩).1.isOk = true := by
    decide +kernel
  obtain ⟨bytes, artifact, hDiff, hComputed⟩ :=
    hBlank.computed (List.all_eq_true.mp rfl) (List.all_eq_true.mp rfl)
  have hChosen := Gives.of_toOption hChosen
  rw [(gives_chooseRun hChosen).1] at hChosen
  obtain ⟨result, hExecute⟩ := Gives.exists_of_isOk hEnds
  rw [filesWithDiff_of_gives hComputed]
  exact ⟨_, _, gives_targetedStep_of_chosen rfl hDiff hComputed hChosen hExecute, hDiff.ready hComputed,
    hChosen⟩

/-- A program whose base version is no text is passed over although its state could be used. One with two
blank versions is launched on its changes and its state. -/
theorem garbled_passed_over_and_blank_launched :
    (∃ report w', Gives (bench.targetedStep idle smallTargeted present) garbled report w' ∧
      bench.Unready present garbled.files ∧ bench.PassesOver smallTargeted present garbled report w' ∧
      ∃ a fs, Gives (bench.store.lookup present (.compute [255])) garbled.files a fs ∧
        a.valid?.isSome = true) ∧
    ∃ report w' d, Gives (bench.targetedStep idle smallTargeted present) blank report w' ∧
      ¬ bench.Unready present blank.files ∧ bench.FreshDiff present blank.files d ∧
      bench.LaunchesOnce idle smallTargeted present blank report w' d .targeted blankCommand := by
  constructor
  · have hSound : garbled.files.Sound := .of_names (by decide) (by decide)
    obtain ⟨hEnds, hFails, hState⟩ :
        ((bench.targetedStep idle smallTargeted present).run.run garbled).1.isOk = true ∧
        ((bench.computeDiff present).run.run garbled.files).1.isOk = false ∧
        ((bench.store.lookup present (.compute [255])).run.run garbled.files).1.toOption.any
          (·.valid?.isSome) = true := by
      decide +kernel
    obtain ⟨report, hStep⟩ := Gives.exists_of_isOk hEnds
    obtain ⟨e, hFails⟩ := Fails.exists_of_isOk hFails
    have hUnready : bench.Unready present garbled.files := .inr (.inr ⟨e, _, hFails⟩)
    rcases targetedStep_skips_or_launches_once rfl hSound (opened_changed _ _) hStep with
      ⟨-, hPasses⟩ | ⟨hReady, -⟩
    · exact ⟨report, _, hStep, hUnready, hPasses, Gives.exists_of_any hState⟩
    · exact absurd hUnready hReady
  · have hSound : blank.files.Sound := .of_names (by decide) (by decide)
    obtain ⟨report, w', hStep, hReady, hChosen⟩ := gives_targetedStep_blank
    rcases targetedStep_skips_or_launches_once rfl hSound (opened_changed _ _) hStep with
      ⟨hUnready, -⟩ | ⟨-, d, mode, command, hFresh, hLaunches⟩
    · exact absurd hUnready hReady
    obtain ⟨base, hBase, hDigest⟩ := hFresh.base
    rcases chooseRun_cases (w := blank) (read_source_filesWithDiff hSound hBase) hChosen with
      ⟨-, a, hValid, hCommand⟩ | ⟨hCold, -⟩
    · rw [← hDigest] at hValid
      obtain rfl := hLaunches.targeted.mpr ⟨a, hValid⟩
      cases (hLaunches.matching a hValid).1.symm.trans hCommand
      exact ⟨report, w', d, hStep, hReady, hFresh, hLaunches⟩
    · cases hCold

end Harness

end Reanalysis
