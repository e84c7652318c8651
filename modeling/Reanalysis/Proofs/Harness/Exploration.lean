import Reanalysis.Proofs.Harness.Stage

/-!
# What the runs of a program depend on

A full run depends on the source of its program. A targeted run depends on the state that the full run of
its program has left, and on the changes. Neither depends on the steps for other programs, so after any
steps the files are described by the programs whose full steps have been taken.
-/

namespace Reanalysis

open Files (Location)
open CacheStore
open Command (stateFlag)

namespace Setting

variable (S : Setting)

/-! ## Launches of a program -/

structure FullLaunch (id : ProgramId) (l : Launch) : Prop where
  built : ∃ fs, Command.full fs S.harness.config.engine.full (S.harness.corpus.sourcePath id) true
    S.harness.config.fullTimeout = .ok l.command
  source : l.before.contents? (S.harness.corpus.sourcePath id) =
    S.start.contents? (S.harness.corpus.sourcePath id)

/-- What the full run of a program should leave in the store. -/
def Kept (id : ProgramId) (state : Bytes) (base : Digest) : Prop :=
  ∃ l ∈ S.launches, S.FullLaunch id l ∧ l.outcome.exit = .exited 0 ∧ l.Leaves S.store state ∧
    ∃ text, S.start.read (S.harness.corpus.sourcePath id) = .ok text ∧ base = .compute text

/-- A targeted run with the state that was kept. -/
structure WarmLaunch (id : ProgramId) (l : Launch) : Prop where
  built : ∃ fs, Command.targeted fs S.harness.config.engine.targeted (S.store.cachePath id)
    (S.harness.config.diffPath id) S.harness.config.targetedTimeout = .ok l.command
  state : ∃ state base, S.Kept id state base ∧ l.before.contents? (S.store.cachePath id) = some state
  diff : ∃ bytes, S.harness.HasDiff id S.start bytes ∧
    l.before.contents? (S.harness.config.diffPath id) = some bytes

/-- A targeted run without any state. -/
structure ColdLaunch (id : ProgramId) (l : Launch) : Prop where
  built : ∃ fs, Command.cold fs S.harness.config.engine.full (S.harness.corpus.modifiedPath id)
    S.harness.config.targetedTimeout = .ok l.command
  state : ¬ ∃ state base, S.Kept id state base
  modified : l.before.contents? (S.harness.corpus.modifiedPath id) =
    S.start.contents? (S.harness.corpus.modifiedPath id)

/-- The changes of a program can be computed and written. -/
def Changed (id : ProgramId) : Prop :=
  (∃ bytes, S.harness.HasDiff id S.start bytes) ∧ S.harness.DiffReaches id ∧
    Harness.Clear S.logs id S.start

def FullRuns (id : ProgramId) (runs : List Run) : Prop :=
  ¬ S.HasSource id ∧ runs = [] ∨
    S.HasSource id ∧ ∃ l ∈ S.launches, S.FullLaunch id l ∧ runs = [l.outcome.toRun id .full none]

def TargetedRuns (id : ProgramId) (runs : List Run) : Prop :=
  ¬ S.Changed id ∧ runs = [] ∨
    S.Changed id ∧ ∃ l ∈ S.launches, S.WarmLaunch id l ∧ runs = [l.outcome.toRun id .targeted none] ∨
      S.ColdLaunch id l ∧ runs = [l.outcome.toRun id .cold none]

variable {S} {id : ProgramId} {l l' : Launch} {runs runs' : List Run}

theorem agrees_of_build (hl : l ∈ S.launches) (hl' : l' ∈ S.launches) {fs fs' : Files}
    {purpose purpose' : String} {argv args : List String} {inputs inputs' : List Location}
    {timeout : Duration} (hBuilt : Command.build fs purpose argv args inputs timeout = .ok l.command)
    (hBuilt' : Command.build fs' purpose' argv args inputs' timeout = .ok l'.command)
    (hArgv : argv = S.harness.config.engine.full ∨ argv = S.harness.config.engine.targeted)
    (hFiles : ∀ arg ∈ args, ∀ p, Command.fileOf? arg = some p →
      l.before.contents? p = l'.before.contents? p) : l.Agrees S.store l' := by
  refine S.honours.agrees l hl l' hl' (Launch.alike_of_build hBuilt hBuilt' fun arg hArg p hFile => ?_)
  rcases hArg with hArg | hArg
  · obtain ⟨start, hSteady⟩ := S.steady
    have hMem : arg ∈ S.harness.config.engine.full ++ S.harness.config.engine.targeted := by
      rw [List.mem_append]
      rcases hArgv with hSame | hSame
      · exact .inl (hSame ▸ hArg)
      · exact .inr (hSame ▸ hArg)
    rw [hSteady l hl arg hMem p hFile, hSteady l' hl' arg hMem p hFile]
  · exact hFiles arg hArg p hFile

theorem FullLaunch.agrees (h : S.FullLaunch id l) (h' : S.FullLaunch id l') (hl : l ∈ S.launches)
    (hl' : l' ∈ S.launches) : l.Agrees S.store l' := by
  obtain ⟨fs, hBuilt⟩ := h.built
  obtain ⟨fs', hBuilt'⟩ := h'.built
  refine agrees_of_build hl hl' hBuilt hBuilt' (.inl rfl) fun arg hArg p hFile => ?_
  rcases List.mem_cons.mp hArg with rfl | hFlag
  · rw [Command.fileOf?_option (by decide)] at hFile
    cases hFile
    rw [h.source, h'.source]
  · rw [List.mem_singleton.mp hFlag, (by decide : Command.fileOf? "--writecache" = none)] at hFile
    cases hFile

theorem Kept.unique {state state' : Bytes} {base base' : Digest} (h : S.Kept id state base)
    (h' : S.Kept id state' base') : state = state' ∧ base = base' := by
  obtain ⟨l, hl, hFull, -, hLeaves, text, hText, rfl⟩ := h
  obtain ⟨l', hl', hFull', -, hLeaves', text', hText', rfl⟩ := h'
  cases hText.symm.trans hText'
  have hAgrees := hFull.agrees hFull' hl hl'
  exact ⟨((hAgrees.leaves state).mp hLeaves).unique hLeaves', rfl⟩

theorem FullLaunch.kept_iff (h : S.FullLaunch id l) (hl : l ∈ S.launches) {text : Bytes}
    (hText : S.start.read (S.harness.corpus.sourcePath id) = .ok text) {state : Bytes} {base : Digest} :
    S.Kept id state base ↔
      l.outcome.exit = .exited 0 ∧ l.Leaves S.store state ∧ base = .compute text := by
  constructor
  · rintro ⟨l', hl', hFull', hExit, hLeaves, text', hText', rfl⟩
    cases hText.symm.trans hText'
    have hAgrees := h.agrees hFull' hl hl'
    exact ⟨hAgrees.exit.trans hExit, (hAgrees.leaves state).mpr hLeaves, rfl⟩
  · rintro ⟨hExit, hLeaves, rfl⟩
    exact ⟨l, hl, h, hExit, hLeaves, text, hText, rfl⟩

theorem WarmLaunch.agrees (h : S.WarmLaunch id l) (h' : S.WarmLaunch id l') (hl : l ∈ S.launches)
    (hl' : l' ∈ S.launches) : l.Agrees S.store l' := by
  obtain ⟨fs, hBuilt⟩ := h.built
  obtain ⟨fs', hBuilt'⟩ := h'.built
  refine agrees_of_build hl hl' hBuilt hBuilt' (.inr rfl) fun arg hArg p hFile => ?_
  simp only [List.mem_cons, List.not_mem_nil, or_false] at hArg
  rcases hArg with rfl | rfl | rfl
  · rw [(by decide : Command.fileOf? "--diff" = none)] at hFile
    cases hFile
  · rw [Command.fileOf?_option (by decide)] at hFile
    cases hFile
    obtain ⟨state, base, hKept, hState⟩ := h.state
    obtain ⟨state', base', hKept', hState'⟩ := h'.state
    rw [hState, hState', (hKept.unique hKept').1]
  · rw [Command.fileOf?_option (by decide)] at hFile
    cases hFile
    obtain ⟨bytes, hDiff, hBytes⟩ := h.diff
    obtain ⟨bytes', hDiff', hBytes'⟩ := h'.diff
    rw [hBytes, hBytes', hDiff.unique hDiff']

theorem ColdLaunch.agrees (h : S.ColdLaunch id l) (h' : S.ColdLaunch id l') (hl : l ∈ S.launches)
    (hl' : l' ∈ S.launches) : l.Agrees S.store l' := by
  obtain ⟨fs, hBuilt⟩ := h.built
  obtain ⟨fs', hBuilt'⟩ := h'.built
  refine agrees_of_build hl hl' hBuilt hBuilt' (.inl rfl) fun arg hArg p hFile => ?_
  rw [List.mem_singleton.mp hArg, Command.fileOf?_option (by decide)] at hFile
  cases hFile
  rw [h.modified, h'.modified]

theorem WarmLaunch.not_cold (h : S.WarmLaunch id l) : ¬ S.ColdLaunch id l' := by
  intro h'
  obtain ⟨state, base, hKept, -⟩ := h.state
  exact h'.state ⟨state, base, hKept⟩

theorem FullRuns.unique (h : S.FullRuns id runs) (h' : S.FullRuns id runs') : runs = runs' := by
  rcases h with ⟨hNot, rfl⟩ | ⟨hSource, l, hl, hFull, rfl⟩
  · rcases h' with ⟨-, rfl⟩ | ⟨hSource', -⟩
    · rfl
    · exact absurd hSource' hNot
  · rcases h' with ⟨hNot, -⟩ | ⟨-, l', hl', hFull', rfl⟩
    · exact absurd hSource hNot
    · rw [(hFull.agrees hFull' hl hl').toRun_eq]

theorem TargetedRuns.unique (h : S.TargetedRuns id runs) (h' : S.TargetedRuns id runs') :
    runs = runs' := by
  rcases h with ⟨hNot, rfl⟩ | ⟨hChanged, l, hl, hRun⟩
  · rcases h' with ⟨-, rfl⟩ | ⟨hChanged', -⟩
    · rfl
    · exact absurd hChanged' hNot
  rcases h' with ⟨hNot, -⟩ | ⟨-, l', hl', hRun'⟩
  · exact absurd hChanged hNot
  rcases hRun with ⟨hWarm, rfl⟩ | ⟨hCold, rfl⟩
  · rcases hRun' with ⟨hWarm', rfl⟩ | ⟨hCold', -⟩
    · rw [(hWarm.agrees hWarm' hl hl').toRun_eq]
    · exact absurd hCold' hWarm.not_cold
  · rcases hRun' with ⟨hWarm', -⟩ | ⟨hCold', rfl⟩
    · exact absurd hCold hWarm'.not_cold
    · rw [(hCold.agrees hCold' hl hl').toRun_eq]

/-! ## Stages -/

variable (S) in
/-- What is known about the slots when the full steps for these programs have been taken. -/
def ledger (front : List ProgramId) : Ledger :=
  ⟨fun id state base => id ∈ front ∧ S.Kept id state base,
    fun n => S.start.node? (S.store.slotPlace S.root n) = some .directory ∧
      ∀ id ∈ front, S.HasSource id → id.number ≠ n⟩

theorem hasSource_of_read {text : Bytes}
    (hText : S.start.read (S.harness.corpus.sourcePath id) = .ok text) : S.HasSource id :=
  Files.isFile_of_read hText

theorem Kept.hasSource {state : Bytes} {base : Digest} (h : S.Kept id state base) : S.HasSource id := by
  obtain ⟨-, -, -, -, -, text, hText, -⟩ := h
  exact hasSource_of_read hText

variable {front : List ProgramId}

theorem ledger_of_missing (h : ¬ S.HasSource id) : S.ledger (front ++ [id]) = S.ledger front := by
  ext other state base
  · simp only [ledger, List.mem_append, List.mem_singleton]
    constructor
    · rintro ⟨hMem | rfl, hKept⟩
      · exact ⟨hMem, hKept⟩
      · exact absurd hKept.hasSource h
    · rintro ⟨hMem, hKept⟩
      exact ⟨.inl hMem, hKept⟩
  · simp only [ledger, List.mem_append, List.mem_singleton]
    refine and_congr_right fun _ => ⟨fun hAll other hMem => hAll other (.inl hMem), ?_⟩
    rintro hAll other (hMem | rfl) hSource
    · exact hAll other hMem hSource
    · exact absurd hSource h

theorem past_ledger_iff (hSource : S.HasSource id) {n : Nat} :
    (S.ledger (front ++ [id])).past n ↔ n ≠ id.number ∧ (S.ledger front).past n := by
  simp only [ledger, List.mem_append, List.mem_singleton]
  constructor
  · rintro ⟨hThere, hAll⟩
    exact ⟨(hAll id (.inr rfl) hSource).symm, hThere, fun other hMem => hAll other (.inl hMem)⟩
  · rintro ⟨hNe, hThere, hAll⟩
    refine ⟨hThere, ?_⟩
    rintro other (hMem | rfl) hOther
    · exact hAll other hMem hOther
    · exact Ne.symm hNe

theorem ledger_of_kept {state : Bytes} {base : Digest} (h : S.Kept id state base) :
    S.ledger (front ++ [id]) = (S.ledger front).record id state base := by
  ext other state' base'
  · simp only [ledger, Ledger.record, Ledger.without, List.mem_append, List.mem_singleton]
    by_cases hOther : other = id
    · subst hOther
      simp only [or_true, true_and, not_true, false_and, ne_eq, or_false]
      exact ⟨fun hKept => hKept.unique h, fun hSame => hSame.1 ▸ hSame.2 ▸ h⟩
    · simp [hOther]
  · exact past_ledger_iff h.hasSource

theorem ledger_of_not_kept (hSource : S.HasSource id) (h : ¬ ∃ state base, S.Kept id state base) :
    S.ledger (front ++ [id]) = (S.ledger front).without id := by
  ext other state' base'
  · simp only [ledger, Ledger.without, List.mem_append, List.mem_singleton]
    by_cases hOther : other = id
    · subst hOther
      simp only [ne_eq, not_true, false_and, iff_false]
      exact fun hKept => h ⟨_, _, hKept.2⟩
    · simp [hOther]
  · exact past_ledger_iff hSource

variable (S) in
/-- The files when the full steps for these programs have been taken, whatever else was done. -/
structure Stage (opened : List String) (front : List ProgramId) (u : Files) : Prop
    extends S.Follows opened u where
  balanced : S.store.Balanced S.root (S.ledger front) u
  noFolder : ∀ n, ¬ (S.ledger front).past n →
    u.node? (S.store.filePlace S.root n blobName) ≠ some .directory

/-! ## Lines -/

variable (S) in
/-- These runs have been added to the log, and nothing to any other. -/
def Records (log : Log) (runs : List Run) (u u' : Files) : Prop :=
  ∀ name ∈ Harness.skipLog :: Harness.runLogs, ∀ number,
    Files.Adds (S.harness.config.logPath name) number (if log.number = number then runs else []) u u'

variable {opened : List String} {u u' u'' : Files} {log : Log} {name : String} {dir : Place}

theorem Records.nil (log : Log)
    (h : ∀ name ∈ Harness.skipLog :: Harness.runLogs, ∀ number,
      Files.Spares (S.harness.config.logPath name) number u u') : S.Records log [] u u' := by
  intro name hName number
  rw [ite_self]
  exact (h name hName number).adds

theorem Records.trans (h : S.Records log runs u u') (h' : S.Records log runs' u' u'') :
    S.Records log (runs ++ runs') u u'' := by
  intro name hName number
  have hAdds := (h name hName number).trans (h' name hName number)
  by_cases hNumber : log.number = number
  · simpa only [if_pos hNumber] using hAdds
  · simpa only [if_neg hNumber, List.append_nil] using hAdds

theorem Follows.records_launch {bytes : Bytes} {run : Run} (h : S.Follows opened l.before)
    (hl : l ∈ S.launches)
    (hBytes : bytes = l.after.content log.number ++ Log.line run.toEntry.toJson) :
    S.Records log [run] l.before (l.after.setContent log.number bytes) := by
  intro name hName number old hStores
  have hAfter := h.spares_log hl hName number old hStores
  by_cases hNumber : log.number = number
  · subst hNumber
    rw [hBytes, hAfter.content_eq, if_pos rfl]
    simpa using hAfter.setContent (old ++ Log.line run.toEntry.toJson)
  · rw [if_neg hNumber]
    simpa using Files.spares_setContent hNumber bytes old hAfter

theorem Records.stays_open (h : S.Records log runs u u') {other : Log}
    (hName : name ∈ Harness.skipLog :: Harness.runLogs) (hOpened : S.harness.Opened u name other) :
    S.harness.Opened u' name other := by
  obtain ⟨bytes, hStores⟩ := hOpened.stored
  exact ⟨hOpened.position, _, h name hName other.number bytes hStores⟩

/-! ## Steps -/

theorem written_entry (hId : id ∈ S.ids) (hSource : S.HasSource id) {entry : String}
    (hEntry : entry = blobName ∨ entry = metaName) :
    S.Written opened (S.store.filePlace S.root id.number entry) :=
  .inr (.inl ⟨id, hId, hSource, entry, hEntry, rfl⟩)

theorem Follows.touches_upkeep (h : S.Follows opened l.before) (h' : S.Follows opened u)
    (hId : id ∈ S.ids) (hSource : S.HasSource id)
    (hTends : Harness.Tends S.store S.root id (S.store.producedSince u (S.store.engineDirs l.before)) u u') :
    Files.Touches (S.Written opened) u u' := by
  refine hTends.alters.touches.settled.mono ?_
  rintro q ⟨⟨n, hMem, rfl⟩ | rfl | rfl | rfl, hThere⟩
  · rw [producedSince, List.mem_filter, Bool.and_eq_true] at hMem
    obtain ⟨hDirs, hNew, -⟩ := hMem
    refine .inl (.inr ⟨n, [blobName], fun hSlot => ?_, rfl⟩)
    have hSlot' := h.touches.standing _ hSlot
    rcases h.housed with hTidy | hVacant
    · have hOld := mem_engineDirs hTidy (lt_of_mem_engineDirs hDirs) hSlot'
      simp [hOld] at hNew
    · rw [slotPlace, hVacant.below] at hSlot'
      cases hSlot'
  · exact .inl (.inr ⟨id.number, [], fun hSlot => hThere (h'.touches.standing _ hSlot), rfl⟩)
  · exact written_entry hId hSource (.inl rfl)
  · exact written_entry hId hSource (.inr rfl)

theorem Follows.ran (h : S.Follows opened l.before) (hl : l ∈ S.launches)
    (hCorpus : ∃ dir, S.start.Leads S.harness.config.corpusDir dir)
    (hName : name ∈ Harness.skipLog :: Harness.runLogs) (hMem : name ∈ opened)
    (hOpened : S.harness.Opened l.before name log) (bytes : Bytes) :
    S.Follows opened (l.after.setContent log.number bytes) := by
  refine (h.launched hl hCorpus).line hName hMem ⟨hOpened.position, ?_⟩ bytes
  obtain ⟨old, hStores⟩ := hOpened.stored
  exact ⟨old, h.spares_log hl hName _ old hStores⟩

theorem Follows.noFolder (h : S.Follows opened l.before) (hl : l ∈ S.launches) {n : Nat}
    (hFolder : l.after.node? (S.store.filePlace S.root n blobName) = some .directory) :
    l.before.node? (S.store.filePlace S.root n blobName) = some .directory := by
  by_cases hRoom : S.store.IsRoom l.before n
  · exact absurd hFolder (S.honours.noFolder l hl n hRoom)
  · rwa [((S.honours.obeys l hl).touches h.housed).node] at hFolder
    rintro (hRooms | ⟨hWay, -⟩)
    · exact not_inRooms hRoom hRooms
    · have hLength := hWay.length_le
      simp [filePlace] at hLength

theorem Stage.diffed (h : S.Stage opened front u) (id : ProgramId)
    (hCorpus : ∃ dir, S.start.Leads S.harness.config.corpusDir dir) :
    S.Stage opened front (S.harness.filesWithDiff id u) := by
  refine ⟨h.toFollows.diffed id hCorpus, balanced_filesWithDiff h.toFollows id h.balanced, fun n hPast => ?_⟩
  have hAlters : Files.Alters _ u (S.harness.filesWithDiff id u) := Harness.alters_filesWithDiff h.leads
  rw [hAlters.node]
  · exact h.noFolder n hPast
  · rintro (hEq | hEq)
    · exact (Harness.beside_diffs S.store).not_entry S.logs (hEq ▸ entry_blob n)
    · exact (Harness.beside_diff S.store id).not_entry S.logs (hEq ▸ entry_blob n)

theorem Stage.ran (h : S.Stage opened front l.before) (hl : l ∈ S.launches)
    (hCorpus : ∃ dir, S.start.Leads S.harness.config.corpusDir dir)
    (hName : name ∈ Harness.skipLog :: Harness.runLogs) (hMem : name ∈ opened)
    (hOpened : S.harness.Opened l.before name log) (hArgs : stateFlag ∉ l.command.args) (bytes : Bytes) :
    S.Stage opened front (l.after.setContent log.number bytes) := by
  refine ⟨h.toFollows.ran hl hCorpus hName hMem hOpened bytes, ?_, fun n hPast hFolder => ?_⟩
  · exact Harness.balanced_of_unasked h.balanced (S.honours.obeys l hl) (h.foreign_log hName hOpened) hArgs
  · exact h.noFolder n hPast (h.toFollows.noFolder hl hFolder)

theorem Changed.hasFiles (h : S.Changed id) :
    S.start.isFile (S.harness.corpus.sourcePath id) = true ∧
      S.start.isFile (S.harness.corpus.modifiedPath id) = true := by
  have hFile : ∀ p text, S.start.readText p = .ok text → S.start.isFile p = true := by
    intro p text hText
    cases hRead : S.start.read p with
    | ok bytes => exact Files.isFile_of_read hRead
    | error e =>
      rw [Files.readText, hRead] at hText
      cases hText
  obtain ⟨⟨_, base, modified, d, hBase, hModified, -⟩, -⟩ := h
  exact ⟨hFile _ _ hBase, hFile _ _ hModified⟩

/-- In front, the state of a program can be used exactly when its full run has left one. -/
theorem Stage.warm_or_cold (h : S.Stage opened front l.before) {now : Instant} {σ : Type}
    {w w' : World σ} (hFiles : w.files = l.before) (hId : id ∈ front) (hSource : S.HasSource id)
    (hCorpus : S.start.Leads S.harness.config.corpusDir dir) {mode : Mode} {bytes : Bytes}
    (hDiff : S.harness.HasDiff id S.start bytes)
    (hBytes : l.before.read (S.harness.config.diffPath id) = .ok bytes)
    (hChosen : Gives ((S.harness.atTime now).chooseRun id) w (l.command, mode) w') :
    S.WarmLaunch id l ∧ mode = .targeted ∨ S.ColdLaunch id l ∧ mode = .cold := by
  have hBalanced := h.balanced.atTime now
  have hRead : ∀ ending ∈ Harness.programEndings, l.before.read (S.harness.corpus.inDir id ending) =
      S.start.read (S.harness.corpus.inDir id ending) := fun _ hEnding => h.read_program hEnding hCorpus
  have hContents : ∀ p, l.before.read p = S.start.read p → l.before.contents? p = S.start.contents? p :=
    fun p hSame => congrArg Except.toOption hSame
  obtain ⟨-, hMode, -⟩ := Harness.gives_chooseRun hChosen
  rcases hMode with rfl | rfl
  · obtain ⟨-, text, artifact, hText, hUsable, hCommand⟩ := Harness.gives_chooseRun_targeted_iff.mp hChosen
    rw [Harness.gives_usableState_some_iff, hFiles] at hUsable
    have hPast : ¬ (S.ledger front).past id.number := fun hFound => hFound.2 id hId hSource rfl
    obtain ⟨state, base, hKept⟩ := hBalanced.kept_of_read hPast hUsable.1
    obtain ⟨hArtifact, hState⟩ := hBalanced.read_of_kept hKept
    obtain rfl := Option.some.inj (hUsable.1.unique hArtifact)
    refine .inl ⟨⟨⟨w.files, hCommand⟩, ⟨state, base, hKept.2, ?_⟩, bytes, hDiff, ?_⟩, rfl⟩
    · rw [Files.contents?]
      exact congrArg Except.toOption hState
    · rw [Files.contents?, hBytes]
      rfl
  · obtain ⟨-, text, hText, hUsable, hCommand⟩ := Harness.gives_chooseRun_cold hChosen
    refine .inr ⟨⟨⟨w.files, hCommand⟩, ?_, hContents _ (hRead _ (by decide))⟩, rfl⟩
    rintro ⟨state, base, hKept⟩
    obtain ⟨hArtifact, -⟩ := hBalanced.read_of_kept ⟨hId, hKept⟩
    obtain ⟨-, -, -, -, -, text', hText', rfl⟩ := hKept
    have hSame : text' = text := by
      rw [hFiles] at hText
      exact Except.ok.inj (hText'.symm.trans ((hRead _ (by decide)).symm.trans hText))
    have hFound : Gives ((S.harness.atTime now).usableState id (.compute text)) w
        (some ((S.harness.atTime now).store.artifact id state (some (.compute text')))) w := by
      rw [Harness.gives_usableState_some_iff, hFiles]
      refine ⟨hArtifact, ?_⟩
      simp [CacheArtifact.matchesBase, CacheStore.artifact, hSame]
    cases hFound.unique hUsable

theorem Stage.passed_over (h : S.Stage opened front u) (hNot : ¬ S.HasSource id) :
    S.Stage opened (front ++ [id]) u := by
  refine ⟨h.toFollows, ?_, ?_⟩
  · rw [ledger_of_missing hNot]
    exact h.balanced
  · rw [ledger_of_missing hNot]
    exact h.noFolder

section Upkeep

variable {now : Instant} {found : Bool}

theorem Stage.discarded (h : S.Stage opened front u) (log : Log) (hId : id ∈ S.ids)
    (hSource : S.HasSource id) (hCorpus : ∃ dir, S.start.Leads S.harness.config.corpusDir dir)
    (hDiscard : Gives ((S.harness.atTime now).store.discard id) u found u') :
    S.Follows opened u' ∧ S.Records log [] u u' ∧ ∀ n, ¬ (S.ledger (front ++ [id])).past n →
      u'.node? (S.store.filePlace S.root n blobName) ≠ some .directory := by
  obtain ⟨-, hBalanced, -, hBlob, hAlters⟩ := (h.balanced.atTime now).discard hDiscard
  refine ⟨?_, ?_, fun n hPast hFolder => ?_⟩
  · refine h.change ((sounds_discard _ id).of_gives hDiscard h.sound) ?_ (hAlters.touches.mono ?_) (.inl hCorpus)
    · exact (hBalanced.atTime S.harness.now).tidy_or_vacant
    · rintro q (rfl | rfl)
      · exact written_entry hId hSource (.inl rfl)
      · exact written_entry hId hSource (.inr rfl)
  · exact .nil log fun other hOther number =>
      (sparing_discard _ (Harness.reserved_logPath S.harness hOther) id).of_gives hDiscard
  · by_cases hNumber : n = id.number
    · rw [hNumber] at hFolder
      cases hBlob.symm.trans hFolder
    · refine h.noFolder n (fun hFound => hPast ((past_ledger_iff hSource).mpr ⟨hNumber, hFound⟩)) ?_
      rwa [hAlters.node] at hFolder
      rintro (hEq | hEq) <;> exact hNumber (filePlace_inj hEq).1

/-- What a full run should leave is what is kept or dropped after it. -/
theorem FullLaunch.balanced (h : S.FullLaunch id l) (hl : l ∈ S.launches) {text : Bytes}
    (hText : S.start.read (S.harness.corpus.sourcePath id) = .ok text)
    (hUpkeep : l.outcome.exit = .exited 0 ∧ (∃ state, l.Leaves S.store state ∧
        (S.harness.atTime now).store.Balanced S.root ((S.ledger front).record id state (.compute text)) u) ∨
      (l.outcome.exit = .exited 0 → ∀ state, ¬ l.Leaves S.store state) ∧
        (S.harness.atTime now).store.Balanced S.root ((S.ledger front).without id) u) :
    S.store.Balanced S.root (S.ledger (front ++ [id])) u := by
  rcases hUpkeep with ⟨hExit, state, hLeaves, hBalanced⟩ | ⟨hNot, hBalanced⟩
  · rw [ledger_of_kept ((h.kept_iff hl hText).mpr ⟨hExit, hLeaves, rfl⟩)]
    exact hBalanced.atTime S.harness.now
  · rw [ledger_of_not_kept (hasSource_of_read hText)]
    · exact hBalanced.atTime S.harness.now
    · rintro ⟨state, base, hKept⟩
      obtain ⟨hExit, hLeaves, -⟩ := (h.kept_iff hl hText).mp hKept
      exact hNot hExit state hLeaves

theorem quiet_upkeep (log : Log) {success : Prop} [Decidable success] {base : Digest}
    {produced : List Nat} {w w' : World (List Launch)} {done : Unit}
    (hRun : Gives (if success then (S.harness.atTime now).keepState id base produced
      else (S.harness.atTime now).dropState id produced) w done w') :
    (w.files.Sound → w'.files.Sound) ∧ S.Records log [] w.files w'.files := by
  split at hRun
  · refine ⟨(Harness.sounds_keepState _ _).of_gives hRun, .nil log fun other hOther number => ?_⟩
    exact (Harness.sparing_keepState (Harness.reserved_logPath S.harness hOther) _ _).of_gives hRun
  · refine ⟨(Harness.sounds_dropState _).of_gives hRun, .nil log fun other hOther number => ?_⟩
    exact (Harness.sparing_dropState (Harness.reserved_logPath S.harness hOther) _).of_gives hRun

end Upkeep

section Steps

variable {now : Instant} {engine : Engine} {ls ls' : List Launch} {report : StepReport}
  (hStage : S.Stage opened front u)
  (hName : name ∈ Harness.skipLog :: Harness.runLogs) (hMem : name ∈ opened)
  (hOpened : S.harness.Opened u name log) (hLaunches : ∀ l ∈ ls', l ∈ S.launches)

include hStage hName hMem hOpened hLaunches

/-- A full step takes its program to the front. -/
theorem Stage.full (hTime : now.Representable) (hId : id ∈ S.ids)
    (hRun : Gives ((S.harness.atTime now).fullStep engine.runner log id) ⟨u, ls⟩ report ⟨u', ls'⟩) :
    S.Stage opened (front ++ [id]) u' ∧ S.FullRuns id report.runs ∧ S.Records log report.runs u u' := by
  have hFile : u.isFile (S.harness.corpus.sourcePath id) = S.start.isFile (S.harness.corpus.sourcePath id) :=
    hStage.isFile_program (by decide)
  rcases Harness.gives_fullStep hRun with ⟨hMissing, hSame, rfl⟩ | ⟨text, command, found, fs₁, outcome, w₂,
    bytes, hText, hCommand, hDiscard, hLaunch, rfl, hBytes, hRest, hNoted⟩
  · cases hSame
    have hNot : ¬ S.HasSource id := by
      rw [HasSource, ← hFile]
      exact (Bool.not_eq_true _).mpr hMissing
    exact ⟨hStage.passed_over hNot, .inl ⟨hNot, rfl⟩, .nil log fun _ _ _ => .refl _ _ _⟩
  obtain ⟨after, rfl⟩ := Engine.launch_of_run hLaunch
  change ls' = ls ++ [⟨command, fs₁, outcome, after⟩] at hNoted
  generalize hThat : Launch.mk command fs₁ outcome after = l at hNoted hRest
  obtain ⟨rfl, rfl, rfl, rfl⟩ : l.command = command ∧ l.before = fs₁ ∧ l.outcome = outcome ∧
      l.after = after := by
    rw [← hThat]
    exact ⟨rfl, rfl, rfl, rfl⟩
  have hl : l ∈ S.launches := hLaunches l (by simp [hNoted])
  have hSourceFile : u.isFile (S.harness.corpus.inDir id ".jse.js") = true := Files.isFile_of_read hText
  have hSource : S.HasSource id := hFile.symm.trans hSourceFile
  obtain ⟨dir, hDir⟩ := hStage.exists_corpus (by decide) hSourceFile
  have hSourceText : S.start.read (S.harness.corpus.sourcePath id) = .ok text :=
    (hStage.read_program (by decide) hDir).symm.trans hText
  -- The state of the program is removed, the engine runs, and its line is written.
  obtain ⟨hNameable, hBalanced₁, hForeign, -⟩ := (hStage.balanced.atTime now).discard hDiscard
  obtain ⟨hFollows₁, hRecords₁, hNoFolder⟩ :=
    hStage.discarded log hId hSource ⟨dir, hDir⟩ hDiscard
  have hFull : S.FullLaunch id l := by
    refine ⟨⟨u, hCommand⟩, ?_⟩
    rw [Files.contents?, Files.contents?]
    exact congrArg Except.toOption (hFollows₁.read_program (by decide) hDir)
  have hRecords₂ := hFollows₁.records_launch hl (hBytes hOpened.position)
  have hOpened₁ := hRecords₁.stays_open hName hOpened
  have hFollows₂ := hFollows₁.ran hl ⟨dir, hDir⟩ hName hMem hOpened₁ bytes
  -- Then the state is kept or dropped.
  obtain ⟨hTends, hUpkeep⟩ := Harness.balanced_of_upkeep (h := S.harness.atTime now)
    (w := ⟨l.after.setContent log.number bytes, ls ++ [l]⟩) hBalanced₁ ((S.honours.obeys l hl).atTime now)
    hNameable hTime (hForeign _ (hStage.foreign_log hName hOpened)) rfl hRest
  have hTends : Harness.Tends S.store S.root id (S.store.producedSince (l.after.setContent log.number bytes)
    (S.store.engineDirs l.before)) (l.after.setContent log.number bytes) u' := ⟨hTends.alters, hTends.noFolder⟩
  have hBalanced := hFull.balanced hl hSourceText hUpkeep
  obtain ⟨hSound, hRecords₃⟩ := quiet_upkeep log hRest
  have hFollows : S.Follows opened u' := hFollows₂.change (hSound hFollows₂.sound) hBalanced.tidy_or_vacant
    (hFollows₁.touches_upkeep hFollows₂ hId hSource hTends) (.inl ⟨dir, hDir⟩)
  refine ⟨⟨hFollows, hBalanced, fun n hPast hFolder => ?_⟩, .inr ⟨hSource, l, hl, hFull, rfl⟩,
    by simpa [StepReport.ofRun] using (hRecords₁.trans hRecords₂).trans hRecords₃⟩
  exact hNoFolder n hPast (hFollows₁.noFolder hl (hTends.noFolder n hFolder))

/-- A targeted step leaves all programs where they are. -/
theorem Stage.targeted (hId : id ∈ front)
    (hRun : Gives ((S.harness.atTime now).targetedStep engine.runner log id) ⟨u, ls⟩ report ⟨u', ls'⟩) :
    S.Stage opened front u' ∧ S.TargetedRuns id report.runs ∧ S.Records log report.runs u u' := by
  have hFile : ∀ ending ∈ Harness.programEndings, u.isFile (S.harness.corpus.inDir id ending) =
      S.start.isFile (S.harness.corpus.inDir id ending) := fun _ => hStage.isFile_program
  rcases Harness.exists_of_targetedStep (h := S.harness.atTime now) S.suits.differ hRun with
    ⟨hSame, hRuns, hMissing⟩ | ⟨hSourceFile, message, w₁, rfl, hDiff, hCases⟩
  · cases hSame
    rw [hRuns]
    refine ⟨hStage, .inl ⟨fun hChanged => ?_, rfl⟩, .nil log fun _ _ _ => .refl _ _ _⟩
    obtain ⟨hBase, hModified⟩ := hChanged.hasFiles
    rcases hMissing with hMissing | hMissing
    · exact Bool.false_ne_true (hMissing.symm.trans ((hFile _ (by decide)).trans hBase))
    · exact Bool.false_ne_true (hMissing.symm.trans ((hFile _ (by decide)).trans hModified))
  have hSource : S.HasSource id := (hFile _ (by decide)).symm.trans hSourceFile
  obtain ⟨dir, hDir⟩ := hStage.exists_corpus (by decide) hSourceFile
  have hStage₁ := hStage.diffed id ⟨dir, hDir⟩
  have hRecords₁ : S.Records log [] u (S.harness.filesWithDiff id u) := .nil log fun other hOther number =>
    Diff.sparing_compute id _ _ ((Harness.reserved_logPath S.harness hOther).diff _ id) u
  have hChanged : (∃ bytes, S.harness.HasDiff id u bytes) ∧ S.harness.DiffReaches id ∧
      Harness.Clear S.logs id u ↔ S.Changed id := by
    rw [Changed, hStage.clear id]
    exact and_congr_left fun _ => exists_congr fun _ => hStage.toFollows.hasDiff_iff hDir
  have hExtracted := Harness.extractDiff_cases (h := S.harness.atTime now) hStage.leads rfl S.suits.differ hDiff
  rcases hCases with ⟨⟨text, rfl⟩, hSame, hRuns⟩ |
    ⟨rfl, command, mode, outcome, w₂, bytes, hChosen, hLaunch, hRuns, hSame, hBytes⟩
  · cases hSame
    rw [hRuns]
    refine ⟨hStage₁, .inl ⟨fun hThere => ?_, rfl⟩, hRecords₁⟩
    rcases hExtracted with ⟨hNone, -⟩ | ⟨-, hNot⟩
    · cases hNone
    · obtain ⟨⟨diff, hHas⟩, hReaches, hClear⟩ := hChanged.mpr hThere
      exact hNot diff hHas hReaches hClear
  rcases hExtracted with ⟨-, diff, hHas, hReaches, hClear, hRead⟩ | ⟨⟨text, hSome⟩, -⟩
  swap
  · cases hSome
  obtain ⟨after, rfl⟩ := Engine.launch_of_run hLaunch
  cases hSame
  rw [hRuns]
  have hl := hLaunches ⟨command, S.harness.filesWithDiff id u, outcome, after⟩
    (List.mem_append_right ls List.mem_cons_self)
  have hArgs := (Harness.gives_chooseRun hChosen).2.2 S.suits.full S.suits.targeted
  have hOpened₁ := hRecords₁.stays_open hName hOpened
  have hRecords₂ := hStage₁.records_launch hl (hBytes hOpened.position)
  refine ⟨hStage₁.ran hl ⟨dir, hDir⟩ hName hMem hOpened₁ hArgs bytes,
    .inr ⟨hChanged.mp ⟨⟨diff, hHas⟩, hReaches, hClear⟩, _, hl, ?_⟩, hRecords₁.trans hRecords₂⟩
  have hHas' := (hStage.toFollows.hasDiff_iff hDir).mp hHas
  rcases hStage₁.warm_or_cold (l := ⟨command, S.harness.filesWithDiff id u, outcome, after⟩) rfl hId hSource
    hDir hHas' hRead hChosen with ⟨hWarm, rfl⟩ | ⟨hCold, rfl⟩
  · exact .inl ⟨hWarm, rfl⟩
  · exact .inr ⟨hCold, rfl⟩

end Steps

end Setting

end Reanalysis
