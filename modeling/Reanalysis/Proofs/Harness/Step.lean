import Reanalysis.Proofs.Cache.Ledger
import Reanalysis.Proofs.Log.Writing

/-!
# What a step has done

When a step comes to a result, it has passed over its program, or it has launched the engine once,
written a line to its log, and done the rest before and after that.
-/

namespace Reanalysis

open Files (Location)

variable {σ α : Type} {w w' : World σ}

theorem Outcome.program_toRun (o : Outcome) (id : ProgramId) (mode : Mode) (budget : Option Float) :
    (o.toRun id mode budget).program = id := by
  rcases o with ⟨_ | _ | _, elapsed, stdout, stderr⟩ <;> cases budget <;> rfl

namespace Diff

variable {R : Files → Files → Prop}

theorem within_readInput (hRefl : ∀ fs, R fs fs) (path : Location) : Within R (readInput path) := by
  refine .get_bind fun fs => ?_
  cases fs.isFile path <;> cases fs.readText path <;> exact hRefl fs

theorem within_perform {step : FileStep} (hStep : ∀ fs, R fs (step.run fs).1) :
    Within R (perform step) := by
  refine .get_bind fun fs => ?_
  have hAfter := hStep fs
  rcases hRun : step.run fs with ⟨fs', _ | failure⟩ <;> rw [hRun] at hAfter <;> exact hAfter

/-- Nothing but the writing of a diff changes the files. -/
theorem within_compute (hRefl : ∀ fs, R fs fs) (hTrans : ∀ u v w, R u v → R v w → R u w)
    {result : Location} (hWrite : ∀ bytes, Within R ((Files.replacement result bytes).forM perform))
    (id : ProgramId) (base modified : Location) : Within R (compute id base modified result) := by
  refine .bind hTrans (within_readInput hRefl _) fun _ => .bind hTrans (within_readInput hRefl _)
    fun _ => ?_
  split
  · exact .throw hRefl _
  · exact .throw hRefl _
  · exact .bind hTrans (hWrite _) fun _ => .pure hRefl _

end Diff

/-! ## Parts of steps -/

namespace HarnessAction

theorem gives_files_bind_iff {f : Files → HarnessAction σ α} {a : α} :
    Gives (files >>= f) w a w' ↔ Gives (f w.files) w a w' := Iff.rfl

theorem gives_files_iff {fs : Files} :
    Gives (files : HarnessAction σ Files) w fs w' ↔ w.files = fs ∧ w = w' := by
  simp only [files, Gives.bind_iff, Gives.get_iff, Gives.pure_iff]
  constructor
  · rintro ⟨_, _, ⟨rfl, rfl⟩, rfl, rfl⟩
    exact ⟨rfl, rfl⟩
  · rintro ⟨rfl, rfl⟩
    exact ⟨w, w, ⟨rfl, rfl⟩, rfl, rfl⟩

theorem gives_ofStore_iff {action : StoreAction α} {a : α} :
    Gives (ofStore action : HarnessAction σ α) w a w' ↔
      ∃ fs, Gives action w.files a fs ∧ w' = { w with files := fs } := by
  rw [ofStore, onFiles, Gives.get_bind_iff]
  rcases hRun : action.run.run w.files with ⟨e | b, fs⟩
  · simp only [Gives.bind_iff, Gives.set_iff, Gives.not_throw, and_false, exists_false, false_iff]
    rintro ⟨fs', hGives, -⟩
    rw [Gives, hRun] at hGives
    cases hGives
  · simp only [Gives.bind_iff, Gives.set_iff, Gives.pure_iff]
    constructor
    · rintro ⟨_, _, rfl, rfl, rfl⟩
      exact ⟨fs, hRun, rfl⟩
    · rintro ⟨fs', hGives, rfl⟩
      rw [Gives, hRun] at hGives
      cases hGives
      exact ⟨⟨⟩, _, rfl, rfl, rfl⟩

theorem gives_ofCommand_iff {x : Except CommandError α} {a : α} :
    Gives (ofCommand x : HarnessAction σ α) w a w' ↔ x = .ok a ∧ w = w' := by
  cases x with
  | ok b => simp [ofCommand]
  | error e => simp [ofCommand]

end HarnessAction

namespace Harness

open HarnessAction
open Command (stateFlag)

theorem gives_withSource {path : Location} {go : HarnessAction σ StepReport} {report : StepReport}
    (h : Gives (withSource path go) w report w') :
    w.files.isFile path = false ∧ w' = w ∧ report = .ofSkip (.missingSource path) ∨
      w.files.isFile path = true ∧ Gives go w report w' := by
  rw [withSource, gives_files_bind_iff] at h
  split at h
  · rename_i hFile
    exact .inr ⟨hFile, h⟩
  · rename_i hMissing
    obtain ⟨rfl, rfl⟩ := Gives.pure_iff.mp h
    exact .inl ⟨Bool.not_eq_true _ ▸ hMissing, rfl, rfl⟩

theorem gives_withSource_missing {path : Location} {go : HarnessAction σ StepReport}
    (hMissing : w.files.isFile path = false) :
    Gives (withSource path go) w (.ofSkip (.missingSource path)) w := by
  rw [withSource, gives_files_bind_iff, hMissing]
  exact Gives.pure_iff.mpr ⟨rfl, rfl⟩

theorem gives_digestOf_iff {path : Location} {digest : Digest} :
    Gives (digestOf path) w digest w' ↔
      w' = w ∧ ∃ text, w.files.read path = .ok text ∧ digest = .compute text := by
  rw [digestOf, gives_files_bind_iff]
  rcases w.files.read path with e | text
  · simp
  · simp [eq_comm, and_comm]

theorem gives_append {log log' : Log} {value : Json.Value} {fs fs' : Files}
    (h : Gives (log.append value) fs log' fs') :
    ∃ bytes, fs' = fs.setContent log.number bytes ∧
      (log.position = none → bytes = fs.content log.number ++ Log.line value) := by
  rw [Log.append, Gives.get_bind_iff] at h
  cases hPosition : log.position with
  | none =>
    simp only [hPosition, Gives.bind_iff, Gives.modify_iff, Gives.pure_iff] at h
    obtain ⟨_, _, rfl, -, rfl⟩ := h
    exact ⟨_, rfl, fun _ => rfl⟩
  | some position =>
    simp only [hPosition, Gives.bind_iff, Gives.modify_iff, Gives.pure_iff] at h
    obtain ⟨_, _, rfl, -, rfl⟩ := h
    exact ⟨_, rfl, fun hNone => by cases hNone⟩

theorem gives_execute {run : Runner σ} {log : Log} {command : Command} {id : ProgramId} {mode : Mode}
    {budget : Option Float} {result : Run × String}
    (h : Gives (execute run log command id mode budget) w result w') :
    ∃ outcome w₁ bytes, (run command).run w = (outcome, w₁) ∧
      result.1 = outcome.toRun id mode budget ∧
      w' = { w₁ with files := w₁.files.setContent log.number bytes } ∧
      (log.position = none → bytes = w₁.files.content log.number ++
        Log.line (outcome.toRun id mode budget).toEntry.toJson) := by
  simp only [execute, Gives.bind_iff, gives_ofStore_iff, Gives.pure_iff] at h
  obtain ⟨outcome, w₁, hRun, _, _, ⟨fs, hAppend, rfl⟩, rfl, rfl⟩ := h
  obtain ⟨bytes, rfl, hBytes⟩ := gives_append hAppend
  exact ⟨outcome, w₁, bytes, Gives.lift_iff.mp hRun, rfl, rfl, hBytes⟩

theorem isSuccess_toRun_iff (outcome : Outcome) (id : ProgramId) (mode : Mode) :
    (outcome.toRun id mode none).isSuccess = true ↔ outcome.exit = .exited 0 := by
  rcases outcome with ⟨exit, elapsed, stdout, stderr⟩
  cases exit with
  | exited code =>
    by_cases hCode : code = 0 <;> simp [Outcome.toRun, Run.completed, Run.isSuccess, hCode]
  | timedOut => simp [Outcome.toRun, Run.timedOut, Run.isSuccess]
  | launchFailed message => simp [Outcome.toRun, Run.launchFailed, Run.isSuccess]

/-! ## Commands -/

theorem exists_of_build {fs : Files} {purpose : String} {argv args : List String}
    {inputs : List Location} {timeout : Duration} {command : Command}
    (h : Command.build fs purpose argv args inputs timeout = .ok command) :
    ∃ program rest, argv = program :: rest ∧ command = ⟨program, rest ++ args, timeout⟩ := by
  rw [Command.build.eq_def] at h
  split at h
  · cases h
  · split at h
    · cases h
    · split at h
      · cases h
      · split at h
        · cases h
        · cases h
          exact ⟨_, _, rfl, rfl⟩

theorem args_of_build {fs : Files} {purpose : String} {argv args : List String}
    {inputs : List Location} {timeout : Duration} {command : Command}
    (h : Command.build fs purpose argv args inputs timeout = .ok command) :
    command.args = argv.tail ++ args := by
  obtain ⟨program, rest, rfl, rfl⟩ := exists_of_build h
  rfl

theorem option_ne_stateFlag (name : String) (path : Location) :
    Command.option name path ≠ stateFlag := by
  intro hEq
  have hMem : '=' ∈ (Command.option name path).toList := by simp [Command.option]
  rw [hEq] at hMem
  exact absurd hMem (by decide)

/-! ## Keeping and dropping states -/

/-- What runs the commands has no part in it. -/
def FilesOnly (x : HarnessAction σ α) : Prop :=
  Within (fun w w' : World σ => w'.engine = w.engine) x

theorem filesOnly_ofStore (action : StoreAction α) :
    FilesOnly (ofStore action : HarnessAction σ α) := by
  refine .get_bind fun w => ?_
  rcases action.run.run w.files with ⟨e | a, fs⟩ <;> rfl

theorem FilesOnly.bind {β : Type} {x : HarnessAction σ α} {f : α → HarnessAction σ β}
    (hx : FilesOnly x) (hf : ∀ a, FilesOnly (f a)) : FilesOnly (x >>= f) :=
  Within.bind (fun _ _ _ h h' => h'.trans h) hx hf

theorem filesOnly_discards (s : CacheStore) (produced : List Nat) :
    FilesOnly (produced.forM fun n => (ofStore (s.discardProduced n) : HarnessAction σ Unit)) :=
  Within.forM (R := fun w w' : World σ => w'.engine = w.engine) (fun _ => rfl)
    (fun _ _ _ h h' => h'.trans h)
    (fun _ => filesOnly_ofStore _) produced

theorem filesOnly_keepState (h : Harness) (id : ProgramId) (base : Digest) (produced : List Nat) :
    FilesOnly (h.keepState id base produced : HarnessAction σ Unit) := by
  rw [keepState]
  split
  · exact (filesOnly_discards _ _).bind fun _ => (filesOnly_ofStore _).bind fun _ _ => rfl
  · exact (filesOnly_ofStore _).bind fun _ _ => rfl

theorem filesOnly_dropState (h : Harness) (id : ProgramId) (produced : List Nat) :
    FilesOnly (h.dropState id produced : HarnessAction σ Unit) :=
  (filesOnly_discards _ _).bind fun _ => (filesOnly_ofStore _).bind fun _ _ => rfl

/-! ## Steps -/

/-- The engine has run without being asked for its state, and a line has been added to the log. -/
def Ran (run : Runner σ) (log : Log) (w w' : World σ) : Prop :=
  ∃ command outcome w₁ bytes, stateFlag ∉ command.args ∧ (run command).run w = (outcome, w₁) ∧
    w' = { w₁ with files := w₁.files.setContent log.number bytes }

variable {h : Harness} {run : Runner σ} {log : Log} {id : ProgramId} {report : StepReport}

theorem ran_of_execute {command : Command} {mode : Mode} {budget : Option Float}
    {result : Run × String} (hArgs : stateFlag ∉ command.args)
    (hRun : Gives (execute run log command id mode budget) w result w') : Ran run log w w' := by
  obtain ⟨outcome, w₁, bytes, hOutcome, -, rfl, -⟩ := gives_execute hRun
  exact ⟨command, outcome, w₁, bytes, hArgs, hOutcome, rfl⟩

theorem gives_timingStep (hArgv : stateFlag ∉ h.config.engine.full.tail)
    (hRun : Gives (h.timingStep run log id) w report w') : w' = w ∨ Ran run log w w' := by
  rw [timingStep] at hRun
  refine (gives_withSource hRun).imp (fun hSkip => hSkip.2.1) fun ⟨_, hRun⟩ => ?_
  simp only [Gives.bind_iff, gives_files_iff, gives_ofCommand_iff, Gives.pure_iff] at hRun
  obtain ⟨_, _, ⟨rfl, rfl⟩, command, _, ⟨hCommand, rfl⟩, result, _, hExecute, -, rfl⟩ := hRun
  refine ran_of_execute ?_ hExecute
  rw [args_of_build hCommand]
  simp [hArgv, (option_ne_stateFlag _ _).symm]

theorem gives_fullStep (hRun : Gives (h.fullStep run log id) w report w') :
    w.files.isFile (h.corpus.sourcePath id) = false ∧ w' = w ∧
      report = .ofSkip (.missingSource (h.corpus.sourcePath id)) ∨
    ∃ text command found fs₁ outcome w₂ bytes,
      w.files.read (h.corpus.sourcePath id) = .ok text ∧
      Command.full w.files h.config.engine.full (h.corpus.sourcePath id) true h.config.fullTimeout =
        .ok command ∧
      Gives (h.store.discard id) w.files found fs₁ ∧
      (run command).run { w with files := fs₁ } = (outcome, w₂) ∧
      report = .ofRun (outcome.toRun id .full none) ∧
      (log.position = none → bytes = w₂.files.content log.number ++
        Log.line (outcome.toRun id .full none).toEntry.toJson) ∧
      Gives (if outcome.exit = .exited 0
        then h.keepState id (.compute text) (h.store.producedSince
          (w₂.files.setContent log.number bytes) (h.store.engineDirs fs₁))
        else h.dropState id (h.store.producedSince
          (w₂.files.setContent log.number bytes) (h.store.engineDirs fs₁)))
        { w₂ with files := w₂.files.setContent log.number bytes } () w' ∧ w'.engine = w₂.engine := by
  rw [fullStep] at hRun
  refine (gives_withSource hRun).imp_right fun ⟨_, hRun⟩ => ?_
  simp only [Gives.bind_iff, gives_files_iff, gives_ofCommand_iff, gives_ofStore_iff] at hRun
  obtain ⟨base, _, hBase, _, _, ⟨rfl, rfl⟩, command, _, ⟨hCommand, rfl⟩, found, _, ⟨fs₁, hDiscard, rfl⟩,
    _, _, ⟨rfl, rfl⟩, result, _, hExecute, _, _, ⟨rfl, rfl⟩, hRest⟩ := hRun
  obtain ⟨rfl, text, hText, rfl⟩ := gives_digestOf_iff.mp hBase
  obtain ⟨outcome, w₂, bytes, hOutcome, hResult, rfl, hBytes⟩ := gives_execute hExecute
  refine ⟨text, command, found, fs₁, outcome, w₂, bytes, hText, hCommand, hDiscard, hOutcome, ?_⟩
  have hSuccess : result.1.isSuccess = true ↔ outcome.exit = .exited 0 := by
    rw [hResult]
    exact isSuccess_toRun_iff outcome id .full
  by_cases hExit : outcome.exit = .exited 0
  · rw [if_pos (hSuccess.mpr hExit), Gives.bind_iff] at hRest
    obtain ⟨_, _, hKeep, hEnd⟩ := hRest
    obtain ⟨rfl, rfl⟩ := Gives.pure_iff.mp hEnd
    rw [if_pos hExit, hResult]
    have hEngine := (filesOnly_keepState h id _ _).of_gives hKeep
    exact ⟨rfl, hBytes, hKeep, hEngine⟩
  · rw [if_neg fun hTrue => hExit (hSuccess.mp hTrue), Gives.bind_iff] at hRest
    obtain ⟨_, _, hDrop, hEnd⟩ := hRest
    obtain ⟨rfl, rfl⟩ := Gives.pure_iff.mp hEnd
    rw [if_neg hExit, hResult]
    have hEngine := (filesOnly_dropState h id _).of_gives hDrop
    exact ⟨rfl, hBytes, hDrop, hEngine⟩

/-- The files after the changes of a program were computed, with or without success. -/
def filesWithDiff (h : Harness) (id : ProgramId) (fs : Files) : Files :=
  ((Diff.compute id (h.corpus.sourcePath id) (h.corpus.modifiedPath id) (h.config.diffPath id)).run.run
    fs).2

theorem exists_render (id : ProgramId) (ending : String) :
    ∃ d ds, (id.render ++ ending).toList = d :: ds ++ ending.toList ∧ d.isDigit = true ∧ '/' ∉ d :: ds := by
  obtain ⟨d, ds, hDigits, hDigit⟩ := Text.exists_toDigits id.number
  refine ⟨d, ds, ?_, hDigit, fun hMem => ?_⟩
  · rw [ProgramId.render, String.toList_append, Nat.toString_eq_repr, Nat.toList_repr, hDigits]
  · rw [← hDigits] at hMem
    exact Text.ne_of_isDigit (Text.isDigit_of_mem_toDigits hMem) (by decide) rfl

theorem plainName_render (id : ProgramId) {ending : String} (hEnding : '/' ∉ ending.toList) :
    Files.PlainName (id.render ++ ending) := by
  obtain ⟨d, ds, hChars, hDigit, hSlash⟩ := exists_render id ending
  have hOther : ∀ name : String, name.toList.head? ≠ some d → id.render ++ ending ≠ name := by
    rintro name hHead rfl
    rw [hChars] at hHead
    exact hHead rfl
  refine ⟨hOther _ (by simp), hOther _ ?_, hOther _ ?_, ?_⟩
  · exact fun hPoint => Text.ne_of_isDigit hDigit (by decide) (Option.some.inj hPoint).symm
  · exact fun hPoint => Text.ne_of_isDigit hDigit (by decide) (Option.some.inj hPoint).symm
  · rw [hChars, List.mem_append, not_or]
    exact ⟨hSlash, hEnding⟩

theorem plainName_diff (id : ProgramId) : Files.PlainName (id.render ++ ".diff") :=
  plainName_render id (by decide)

theorem plainName_diffs : Files.PlainName "diffs" := ⟨by decide, by decide, by decide, by decide⟩

/-- Only the directory of the diffs and the diff of the program can have changed. -/
theorem alters_filesWithDiff {fs : Files} {logs : Place}
    (hLogs : fs.Leads h.config.logDir logs) :
    Files.Alters (fun q => q = logs ++ ["diffs"] ∨ q = logs ++ ["diffs", id.render ++ ".diff"]) fs
      (h.filesWithDiff id fs) := by
  have hName := plainName_diff id
  have hDirectory : Files.directoryOf (h.config.diffPath id) = Files.join h.config.logDir "diffs" :=
    Files.directoryOf_join plainName_diffs hName
  -- As long as the directory of the logs is there, each step keeps to these places.
  let R : Files → Files → Prop := fun fs fs' => fs.Leads h.config.logDir logs →
    Files.Alters (fun q => q = logs ++ ["diffs"] ∨ q = logs ++ ["diffs", id.render ++ ".diff"]) fs fs'
  have hRefl : ∀ fs, R fs fs := fun fs _ => .refl _ fs
  have hTrans : ∀ fs fs' fs'', R fs fs' → R fs' fs'' → R fs fs'' := by
    intro fs fs' fs'' hFirst hSecond hFound
    exact (hFirst hFound).trans (hSecond (hFound.standing (hFirst hFound).standing))
  have hMake : ∀ fs, R fs ((FileStep.makeDirectories (Files.join h.config.logDir "diffs")).run fs).1 :=
    fun fs hFound => (Files.alters_makeDirectories hFound plainName_diffs).mono fun q hq => .inl hq
  have hPublish : ∀ fs, R fs ((FileStep.publish (h.config.diffPath id)).run fs).1 := by
    intro fs hFound
    rw [FileStep.run]
    split
    · rename_i hLinked
      obtain ⟨-, hFree, rfl⟩ := Files.link_join_join hFound plainName_diffs hName hLinked
      exact .setName _ (.inr rfl) hFree
    · exact .refl _ fs
  have hWrite : ∀ bytes, Within R ((Files.replacement (h.config.diffPath id) bytes).forM
      Diff.perform) := by
    intro bytes
    rw [Files.replacement, hDirectory]
    exact .bind hTrans (Diff.within_perform hMake) fun _ => .bind hTrans
      (Diff.within_perform fun fs _ => .stage bytes) fun _ => .bind hTrans (Diff.within_perform hPublish)
      fun _ => .pure hRefl _
  exact Diff.within_compute hRefl hTrans hWrite id _ _ fs hLogs

theorem gives_extractDiff (hDiffer : h.config.differ.external? = none) {message : Option String}
    (hRun : Gives (h.extractDiff run id (h.corpus.sourcePath id) (h.corpus.modifiedPath id)
      (h.config.diffPath id)) w message w') :
    w' = { w with files := h.filesWithDiff id w.files } := by
  rw [extractDiff, hDiffer] at hRun
  dsimp only at hRun
  rw [Gives.get_bind_iff] at hRun
  rcases hDiff : (Diff.compute id (h.corpus.sourcePath id) (h.corpus.modifiedPath id)
    (h.config.diffPath id)).run.run w.files with ⟨computed, fs⟩
  simp only [hDiff, Gives.bind_iff, Gives.set_iff] at hRun
  obtain ⟨_, _, rfl, hRest⟩ := hRun
  rw [filesWithDiff, hDiff]
  cases computed <;> exact (Gives.pure_iff.mp hRest).2.symm

theorem readOnly_readOptional (path : Location) : ReadOnly (StoreAction.readOptional path) := by
  refine .get_bind fun fs => ?_
  split
  · exact .pure _
  · exact .pure _
  · exact .throw _

theorem readOnly_read (s : CacheStore) (id : ProgramId) : ReadOnly (s.read id) := by
  refine .bind (readOnly_readOptional _) fun found => ?_
  cases found with
  | none => exact .bind (readOnly_readOptional _) fun state => .pure _
  | some bytes =>
    dsimp only
    split
    · exact .throw _
    · split
      · exact .bind (.throw _) fun _ => .get_bind fun fs => by split <;> exact .pure _
      · exact .get_bind fun fs => by split <;> exact .pure _

theorem readOnly_lookup (s : CacheStore) (id : ProgramId) (base : Digest) :
    ReadOnly (s.lookup id base) := by
  refine .bind (readOnly_read s id) fun found => ?_
  cases found with
  | none => exact .pure _
  | some artifact =>
    dsimp only
    split <;> exact .pure _

theorem gives_usableState {base : Digest} {found : Option CacheArtifact}
    (hRun : Gives (h.usableState id base) w found w') : w' = w := by
  rw [usableState, Gives.get_bind_iff] at hRun
  have hSame := readOnly_lookup h.store id base w.files
  rcases hLookup : (h.store.lookup id base).run.run w.files with ⟨result, fs⟩
  rw [hLookup] at hSame
  subst hSame
  simp only [hLookup, Gives.bind_iff, Gives.set_iff] at hRun
  obtain ⟨_, _, rfl, hRest⟩ := hRun
  split at hRest
  · exact (Gives.pure_iff.mp hRest).2.symm
  · exact (Gives.pure_iff.mp hRest).2.symm
  · exact absurd hRest Gives.not_throw

theorem gives_lookup_valid_iff {s : CacheStore} {base : Digest} {artifact : CacheArtifact}
    {fs fs' : Files} :
    Gives (s.lookup id base) fs (.valid artifact) fs' ↔
      Gives (s.read id) fs (some artifact) fs' ∧ artifact.matchesBase base = true := by
  rw [CacheStore.lookup, Gives.bind_iff]
  constructor
  · rintro ⟨found, fs₁, hRead, hRest⟩
    cases found with
    | none => simp at hRest
    | some a =>
      cases hBase : a.baseDigest with
      | none =>
        simp only [hBase, Gives.pure_iff, CacheLookup.valid.injEq] at hRest
        obtain ⟨rfl, rfl⟩ := hRest
        exact ⟨hRead, by simp [CacheArtifact.matchesBase, hBase]⟩
      | some recorded =>
        by_cases hEq : recorded = base
        · simp only [hBase, hEq, if_true, Gives.pure_iff, CacheLookup.valid.injEq] at hRest
          obtain ⟨rfl, rfl⟩ := hRest
          exact ⟨hRead, by simp [CacheArtifact.matchesBase, hBase, hEq]⟩
        · simp [hBase, hEq] at hRest
  · rintro ⟨hRead, hMatches⟩
    refine ⟨some artifact, fs', hRead, ?_⟩
    cases hBase : artifact.baseDigest with
    | none => simp [hBase]
    | some recorded =>
      have hEq : recorded = base := by simpa [CacheArtifact.matchesBase, hBase] using hMatches
      simp [hBase, hEq]

/-- The state of a program is used if it was explored from its text, or from nobody knows what. -/
theorem gives_usableState_some_iff {base : Digest} {artifact : CacheArtifact} :
    Gives (h.usableState id base) w (some artifact) w ↔
      Gives (h.store.read id) w.files (some artifact) w.files ∧ artifact.matchesBase base = true := by
  rw [← gives_lookup_valid_iff, usableState, Gives.get_bind_iff]
  have hSame := readOnly_lookup h.store id base w.files
  rcases hLookup : (h.store.lookup id base).run.run w.files with ⟨result, fs⟩
  rw [hLookup] at hSame
  subst hSame
  have hValid : Gives (h.store.lookup id base) w.files (.valid artifact) w.files ↔
      result = .ok (.valid artifact) := by
    rw [Gives, hLookup, Prod.mk.injEq, and_iff_left rfl]
  simp only [Gives.bind_iff, Gives.set_iff, exists_eq_left', exists_const]
  rw [hValid]
  rcases result with e | lookup
  · cases e <;> simp
  · cases lookup <;> simp [CacheLookup.valid?]

/-! ## Deciding on a targeted run -/

/-- How a targeted step goes on when the changes are there. -/
def chooseRun (h : Harness) (id : ProgramId) : HarnessAction σ (Command × Mode) := do
  let digest ← digestOf (h.corpus.sourcePath id)
  match ← h.usableState id digest with
  | some cache =>
    let command ← ofCommand (Command.targeted (← files) h.config.engine.targeted cache.path
      (h.config.diffPath id) h.config.targetedTimeout)
    return (command, .targeted)
  | none =>
    let command ← ofCommand (Command.cold (← files) h.config.engine.full (h.corpus.modifiedPath id)
      h.config.targetedTimeout)
    return (command, .cold)

theorem targetedStep_eq (h : Harness) (run : Runner σ) (log : Log) (id : ProgramId) :
    h.targetedStep run log id =
      withSource (h.corpus.sourcePath id) (withSource (h.corpus.modifiedPath id) do
        match ← h.extractDiff run id (h.corpus.sourcePath id) (h.corpus.modifiedPath id)
          (h.config.diffPath id) with
        | some message => return .ofSkip (.diffFailed message)
        | none =>
          let (command, mode) ← h.chooseRun id
          let (result, _) ← execute run log command id mode none
          return .ofRun result) := by
  have hBind : ∀ go : Command × Mode → HarnessAction σ StepReport, h.chooseRun id >>= go = (do
      let digest ← digestOf (h.corpus.sourcePath id)
      match ← h.usableState id digest with
      | some cache =>
        let command ← ofCommand (Command.targeted (← files) h.config.engine.targeted cache.path
          (h.config.diffPath id) h.config.targetedTimeout)
        go (command, .targeted)
      | none =>
        let command ← ofCommand (Command.cold (← files) h.config.engine.full
          (h.corpus.modifiedPath id) h.config.targetedTimeout)
        go (command, .cold)) := by
    intro go
    rw [chooseRun, bind_assoc]
    refine bind_congr fun digest => ?_
    rw [bind_assoc]
    refine bind_congr fun found => ?_
    cases found <;> simp only [bind_assoc, pure_bind]
  simp only [hBind]
  rfl

theorem gives_chooseRun_targeted_iff {command : Command} :
    Gives (h.chooseRun id) w (command, .targeted) w' ↔
      w = w' ∧ ∃ text artifact, w.files.read (h.corpus.sourcePath id) = .ok text ∧
        Gives (h.usableState id (.compute text)) w (some artifact) w ∧
        Command.targeted w.files h.config.engine.targeted artifact.path (h.config.diffPath id)
          h.config.targetedTimeout = .ok command := by
  rw [chooseRun]
  simp only [Gives.bind_iff]
  constructor
  · rintro ⟨digest, w₁, hDigest, found, w₂, hFound, hRest⟩
    obtain ⟨rfl, text, hText, rfl⟩ := gives_digestOf_iff.mp hDigest
    obtain rfl := gives_usableState hFound
    cases found with
    | none =>
      simp only [Gives.bind_iff, Gives.pure_iff, Prod.mk.injEq, reduceCtorEq, and_false, false_and,
        exists_false] at hRest
    | some artifact =>
      simp only [Gives.bind_iff, gives_files_iff, gives_ofCommand_iff, Gives.pure_iff] at hRest
      obtain ⟨_, _, ⟨rfl, rfl⟩, _, _, ⟨hCommand, rfl⟩, hSame, rfl⟩ := hRest
      cases hSame
      exact ⟨rfl, text, artifact, hText, hFound, hCommand⟩
  · rintro ⟨rfl, text, artifact, hText, hFound, hCommand⟩
    refine ⟨_, w, gives_digestOf_iff.mpr ⟨rfl, text, hText, rfl⟩, some artifact, w, hFound, ?_⟩
    simp only [Gives.bind_iff, gives_files_iff, gives_ofCommand_iff, Gives.pure_iff]
    exact ⟨_, _, ⟨rfl, rfl⟩, _, _, ⟨hCommand, rfl⟩, rfl, rfl⟩

theorem gives_chooseRun_cold {command : Command} (hRun : Gives (h.chooseRun id) w (command, .cold) w') :
    w = w' ∧ ∃ text, w.files.read (h.corpus.sourcePath id) = .ok text ∧
      Gives (h.usableState id (.compute text)) w none w ∧
      Command.cold w.files h.config.engine.full (h.corpus.modifiedPath id) h.config.targetedTimeout =
        .ok command := by
  rw [chooseRun] at hRun
  simp only [Gives.bind_iff] at hRun
  obtain ⟨digest, w₁, hDigest, found, w₂, hFound, hRest⟩ := hRun
  obtain ⟨rfl, text, hText, rfl⟩ := gives_digestOf_iff.mp hDigest
  obtain rfl := gives_usableState hFound
  cases found with
  | some cache =>
    simp only [Gives.bind_iff, Gives.pure_iff, Prod.mk.injEq, reduceCtorEq, and_false, false_and,
      exists_false] at hRest
  | none =>
    simp only [Gives.bind_iff, gives_files_iff, gives_ofCommand_iff, Gives.pure_iff] at hRest
    obtain ⟨_, _, ⟨rfl, rfl⟩, _, _, ⟨hCommand, rfl⟩, hSame, rfl⟩ := hRest
    cases hSame
    exact ⟨rfl, text, hText, hFound, hCommand⟩

theorem gives_chooseRun {command : Command} {mode : Mode}
    (hRun : Gives (h.chooseRun id) w (command, mode) w') :
    w' = w ∧ (mode = .targeted ∨ mode = .cold) ∧ (stateFlag ∉ h.config.engine.full.tail →
      stateFlag ∉ h.config.engine.targeted.tail → stateFlag ∉ command.args) := by
  rw [chooseRun] at hRun
  simp only [Gives.bind_iff] at hRun
  obtain ⟨digest, w₁, hDigest, found, w₂, hFound, hRest⟩ := hRun
  obtain ⟨rfl, -⟩ := gives_digestOf_iff.mp hDigest
  obtain rfl := gives_usableState hFound
  cases found with
  | some cache =>
    simp only [Gives.bind_iff, gives_files_iff, gives_ofCommand_iff, Gives.pure_iff] at hRest
    obtain ⟨_, _, ⟨rfl, rfl⟩, _, _, ⟨hCommand, rfl⟩, hSame, rfl⟩ := hRest
    cases hSame
    refine ⟨rfl, .inl rfl, fun _ hTargeted => ?_⟩
    rw [args_of_build hCommand]
    have hDiffFlag : stateFlag ≠ "--diff" := by decide
    simp [hTargeted, hDiffFlag, (option_ne_stateFlag _ _).symm]
  | none =>
    simp only [Gives.bind_iff, gives_files_iff, gives_ofCommand_iff, Gives.pure_iff] at hRest
    obtain ⟨_, _, ⟨rfl, rfl⟩, _, _, ⟨hCommand, rfl⟩, hSame, rfl⟩ := hRest
    cases hSame
    refine ⟨rfl, .inr rfl, fun hFull _ => ?_⟩
    rw [args_of_build hCommand]
    simp [hFull, (option_ne_stateFlag _ _).symm]

/-- A targeted step passes over its program, or the changes are computed, and then it has run a command
unless they could not be. -/
theorem exists_of_targetedStep (hDiffer : h.config.differ.external? = none)
    (hRun : Gives (h.targetedStep run log id) w report w') :
    (w' = w ∧ report.runs = [] ∧ (w.files.isFile (h.corpus.sourcePath id) = false ∨
      w.files.isFile (h.corpus.modifiedPath id) = false)) ∨
    w.files.isFile (h.corpus.sourcePath id) = true ∧
    ∃ message w₁, w₁ = { w with files := h.filesWithDiff id w.files } ∧
      Gives (h.extractDiff run id (h.corpus.sourcePath id) (h.corpus.modifiedPath id)
        (h.config.diffPath id)) w message w₁ ∧
      ((∃ text, message = some text) ∧ w' = w₁ ∧ report.runs = [] ∨
        message = none ∧ ∃ command mode outcome w₂ bytes,
          Gives (h.chooseRun id) w₁ (command, mode) w₁ ∧ (run command).run w₁ = (outcome, w₂) ∧
          report.runs = [outcome.toRun id mode none] ∧
          w' = { w₂ with files := w₂.files.setContent log.number bytes } ∧
          (log.position = none → bytes = w₂.files.content log.number ++
            Log.line (outcome.toRun id mode none).toEntry.toJson)) := by
  rw [targetedStep_eq] at hRun
  rcases gives_withSource hRun with ⟨hMissing, rfl, rfl⟩ | ⟨hSource, hRun⟩
  · exact .inl ⟨rfl, rfl, .inl hMissing⟩
  rcases gives_withSource hRun with ⟨hMissing, rfl, rfl⟩ | ⟨-, hRun⟩
  · exact .inl ⟨rfl, rfl, .inr hMissing⟩
  rw [Gives.bind_iff] at hRun
  obtain ⟨message, w₁, hDiff, hRun⟩ := hRun
  refine .inr ⟨hSource, message, w₁, gives_extractDiff hDiffer hDiff, hDiff, ?_⟩
  cases message with
  | some message =>
    obtain ⟨rfl, rfl⟩ := Gives.pure_iff.mp hRun
    exact .inl ⟨⟨message, rfl⟩, rfl, rfl⟩
  | none =>
    simp only [Gives.bind_iff, Gives.pure_iff] at hRun
    obtain ⟨⟨command, mode⟩, w₂, hChosen, result, _, hExecute, rfl, rfl⟩ := hRun
    obtain ⟨rfl, -⟩ := gives_chooseRun hChosen
    obtain ⟨outcome, w₃, bytes, hOutcome, hResult, rfl, hBytes⟩ := gives_execute hExecute
    refine .inr ⟨rfl, command, mode, outcome, w₃, bytes, hChosen, hOutcome, ?_, rfl, hBytes⟩
    rw [hResult]
    rfl

theorem gives_targetedStep (hDiffer : h.config.differ.external? = none)
    (hFull : stateFlag ∉ h.config.engine.full.tail)
    (hTargeted : stateFlag ∉ h.config.engine.targeted.tail)
    (hRun : Gives (h.targetedStep run log id) w report w') :
    w' = w ∨ w' = { w with files := h.filesWithDiff id w.files } ∨
      Ran run log { w with files := h.filesWithDiff id w.files } w' := by
  rcases exists_of_targetedStep hDiffer hRun with ⟨hSame, -⟩ | ⟨-, message, w₁, rfl, -, ⟨-, hSame, -⟩ |
    ⟨-, command, mode, outcome, w₂, bytes, hChosen, hOutcome, -, hWorld, -⟩⟩
  · exact .inl hSame
  · exact .inr (.inl hSame)
  · obtain ⟨-, -, hArgs⟩ := gives_chooseRun hChosen
    exact .inr (.inr ⟨command, outcome, w₂, bytes, hArgs hFull hTargeted, hOutcome, hWorld⟩)

end Harness

end Reanalysis
