import Reanalysis.Proofs.Harness.Quiet
import Reanalysis.Proofs.Script.Blank

/-!
# Computing changes

When the changes of a program are computed by the harness itself, they come out the same as long as
both versions of the program are the same, and they can be written as long as nothing stands in the
way. Each file keeps contents of its own.
-/

namespace Reanalysis

open Files (Location)

variable {ε σ α β : Type} {fs fs' : Files}

/-! ## Replacements -/

/-- The action carries out steps on files, and fails when they do. -/
structure FileStep.Carries (perform : FileStep → ExceptT ε (StateM Files) Unit) : Prop where
  gives : ∀ {step : FileStep} {fs fs' : Files}, step.run fs = (fs', none) →
    Gives (perform step) fs ⟨⟩ fs'
  fails : ∀ {step : FileStep} {fs fs' : Files} {failure : Location × FileError},
    step.run fs = (fs', some failure) → ∃ e, Fails (perform step) fs e fs'

theorem StoreAction.carries_perform : FileStep.Carries StoreAction.perform where
  gives := StoreAction.gives_perform_iff.mpr
  fails := by
    rintro step fs fs' ⟨path, e⟩ hRun
    refine ⟨.io path e, ?_⟩
    rw [StoreAction.perform, Fails.get_bind_iff, hRun]
    rfl

theorem Diff.carries_perform : FileStep.Carries Diff.perform where
  gives := by
    intro step fs fs' hRun
    rw [Diff.perform, Gives.get_bind_iff, hRun]
    rfl
  fails := by
    rintro step fs fs' ⟨path, e⟩ hRun
    refine ⟨.io path e, ?_⟩
    rw [Diff.perform, Fails.get_bind_iff, hRun]
    rfl

namespace FileStep.Carries

variable {perform : FileStep → ExceptT ε (StateM Files) Unit} (hPerform : Carries perform)
  {path : Location} {bytes : Bytes} {made : Files} {e : FileError}

include hPerform

theorem files_after (step : FileStep) (fs : Files) :
    ((perform step).run.run fs).2 = (step.run fs).1 := by
  rcases hRun : step.run fs with ⟨fs', _ | failure⟩
  · rw [hPerform.gives hRun]
  · obtain ⟨e, hFails⟩ := hPerform.fails hRun
    rw [hFails]

theorem fails_made (hMade : fs.makeDirectories (Files.directoryOf path) = (made, some e)) :
    ∃ e, Fails ((Files.replacement path bytes).forM perform) fs e made := by
  have hRun : (FileStep.makeDirectories (Files.directoryOf path)).run fs =
      (made, some (Files.directoryOf path, e)) := by
    rw [FileStep.run, hMade]
    rfl
  obtain ⟨e, hFails⟩ := hPerform.fails hRun
  exact ⟨e, hFails.bind _⟩

section Made

variable (hMade : fs.makeDirectories (Files.directoryOf path) = (made, none))

include hMade

theorem run_made : ((Files.replacement path bytes).forM perform).run.run fs =
    ([FileStep.publish path].forM perform).run.run (made.stage bytes).2 := by
  have hFirst : (FileStep.makeDirectories (Files.directoryOf path)).run fs = (made, none) := by
    rw [FileStep.run, hMade]
    rfl
  have hSecond : (FileStep.stage bytes).run made = ((made.stage bytes).2, none) := rfl
  exact ((hPerform.gives hFirst).run_bind _).trans ((hPerform.gives hSecond).run_bind _)

theorem gives_linked (hLink : (made.stage bytes).2.link made.contents.length path = .ok fs') :
    Gives ((Files.replacement path bytes).forM perform) fs ⟨⟩ fs' := by
  have hRun : (FileStep.publish path).run (made.stage bytes).2 = (fs', none) := by
    rw [FileStep.run, show (made.stage bytes).2.contents.length - 1 = made.contents.length by
      simp [Files.stage], hLink]
  exact (run_made hPerform hMade).trans ((hPerform.gives hRun).run_bind _)

theorem fails_linked (hLink : (made.stage bytes).2.link made.contents.length path = .error e) :
    ∃ e, Fails ((Files.replacement path bytes).forM perform) fs e (made.stage bytes).2 := by
  have hRun : (FileStep.publish path).run (made.stage bytes).2 =
      ((made.stage bytes).2, some (path, e)) := by
    rw [FileStep.run, show (made.stage bytes).2.contents.length - 1 = made.contents.length by
      simp [Files.stage], hLink]
  obtain ⟨e, hFails⟩ := hPerform.fails hRun
  exact ⟨e, (run_made hPerform hMade).trans (hFails.bind _)⟩

end Made

end FileStep.Carries

/-! ## Files stay sound -/

/-- Files that each have contents of their own have so afterwards. -/
def Sounds (view : σ → Files) (x : ExceptT ε (StateM σ) α) : Prop :=
  Within (fun w w' => (view w).Sound → (view w').Sound) x

namespace Sounds

variable {view : σ → Files}

theorem pure (a : α) : Sounds view (Pure.pure a : ExceptT ε (StateM σ) α) := fun _ h => h

theorem throw (e : ε) : Sounds view (MonadExcept.throw e : ExceptT ε (StateM σ) α) := fun _ h => h

theorem bind {x : ExceptT ε (StateM σ) α} {f : α → ExceptT ε (StateM σ) β} (hx : Sounds view x)
    (hf : ∀ a, Sounds view (f a)) : Sounds view (x >>= f) :=
  Within.bind (fun _ _ _ h h' hSound => h' (h hSound)) hx hf

theorem get_bind {f : σ → ExceptT ε (StateM σ) α} (h : ∀ w, Sounds view (f w)) :
    Sounds view (get >>= f) := fun w => h w w

theorem of_readOnly {x : ExceptT ε (StateM σ) α} (h : ReadOnly x) : Sounds view x := by
  intro w hSound
  rw [h w]
  exact hSound

end Sounds

theorem FileStep.Carries.sounds {perform : FileStep → ExceptT ε (StateM Files) Unit}
    (hPerform : Carries perform) (path : Location) (bytes : Bytes) :
    Sounds id ((Files.replacement path bytes).forM perform) := by
  intro fs (hSound : fs.Sound)
  have hMade := hSound.makeDirectories (Files.directoryOf path)
  rcases hRun : fs.makeDirectories (Files.directoryOf path) with ⟨made, _ | e⟩
  · rw [hRun] at hMade
    cases hLink : (made.stage bytes).2.link made.contents.length path with
    | ok fs' =>
      rw [hPerform.gives_linked hRun hLink]
      exact (hMade.stage bytes).link (by simp [Files.stage]) hMade.number_free hLink
    | error e =>
      obtain ⟨e, hFails⟩ := hPerform.fails_linked hRun hLink
      rw [hFails]
      exact hMade.stage bytes
  · obtain ⟨e, hFails⟩ := hPerform.fails_made hRun
    rw [hFails]
    rw [hRun] at hMade
    exact hMade

theorem StoreAction.sounds_removeOptional (path : Location) : Sounds id (removeOptional path) := by
  refine Within.get_bind fun fs hSound => ?_
  split
  · rename_i hRemoved
    exact hSound.removeFile hRemoved
  · exact hSound
  · exact hSound

namespace CacheStore

variable (s : CacheStore)

theorem sounds_discard (program : ProgramId) : Sounds id (s.discard program) :=
  .bind (StoreAction.sounds_removeOptional _) fun _ =>
    .bind (StoreAction.sounds_removeOptional _) fun _ => .pure _

theorem sounds_discardProduced (n : Nat) : Sounds id (s.discardProduced n) :=
  .bind (StoreAction.sounds_removeOptional _) fun _ => .pure _

theorem sounds_register (program : ProgramId) (base : Option Digest) :
    Sounds id (s.register program base) := by
  refine .bind (.of_readOnly (Harness.readOnly_readOptional _)) fun found => ?_
  cases found with
  | none => exact .pure _
  | some state => exact .bind (StoreAction.carries_perform.sounds _ _) fun _ => .pure _

theorem sounds_adopt (program : ProgramId) (n : Nat) (base : Option Digest) :
    Sounds id (s.adopt program n base) := by
  have hMake : ∀ dir, Sounds id (StoreAction.perform (.makeDirectories dir)) := by
    intro dir fs (hSound : fs.Sound)
    rw [StoreAction.carries_perform.files_after]
    exact hSound.makeDirectories dir
  have hMove : ∀ path source target, Sounds id (StoreAction.change path (·.rename source target)) := by
    refine fun path source target => Within.get_bind fun fs hSound => ?_
    split
    · rename_i hRenamed
      exact hSound.rename hRenamed
    · exact hSound
  rw [adopt]
  split
  · exact s.sounds_register program base
  · refine .get_bind fun fs => ?_
    split
    · exact .pure _
    · exact .bind (hMake _) fun _ => .bind (hMove _ _ _) fun _ => s.sounds_register program base

end CacheStore

theorem Diff.Document.ofScripts_of_parse {program : ProgramId} {base modified : String}
    {baseTree modifiedTree : Tree} (hBase : Script.parse base = .ok baseTree)
    (hModified : Script.parse modified = .ok modifiedTree) :
    ofScripts program base modified = .ok (.ofTrees program base modified baseTree modifiedTree) := by
  rw [ofScripts, hBase, hModified]
  rfl

namespace Harness

open HarnessAction

variable {h : Harness} {id : ProgramId}

theorem sounds_ofStore {action : StoreAction α} (hAction : Sounds (fun fs => fs) action) :
    Sounds World.files (ofStore action : HarnessAction σ α) := by
  refine Within.get_bind fun w => ?_
  have hFiles := hAction w.files
  rcases hRun : action.run.run w.files with ⟨e | a, fs⟩ <;> rw [hRun] at hFiles <;> exact hFiles

theorem sounds_discards (s : CacheStore) (produced : List Nat) :
    Sounds World.files (produced.forM fun n =>
      (ofStore (s.discardProduced n) : HarnessAction σ Unit)) :=
  Within.forM (fun _ hSound => hSound) (fun _ _ _ h h' hSound => h' (h hSound))
    (fun n => sounds_ofStore (s.sounds_discardProduced n)) produced

theorem sounds_keepState (base : Digest) (produced : List Nat) :
    Sounds World.files (h.keepState id base produced : HarnessAction σ Unit) := by
  rw [keepState]
  split
  · exact .bind (sounds_discards _ _) fun _ =>
      .bind (sounds_ofStore (h.store.sounds_adopt _ _ _)) fun _ => .pure _
  · exact .bind (sounds_ofStore (h.store.sounds_register _ _)) fun _ => .pure _

theorem sounds_dropState (produced : List Nat) :
    Sounds World.files (h.dropState id produced : HarnessAction σ Unit) :=
  .bind (sounds_discards _ _) fun _ =>
    .bind (sounds_ofStore (h.store.sounds_discard _)) fun _ => .pure _

/-! ## The changes of a program -/

/-- The diff between the two versions of a program, as it is written. -/
def HasDiff (h : Harness) (id : ProgramId) (fs : Files) (bytes : Bytes) : Prop :=
  ∃ base modified d, fs.readText (h.corpus.sourcePath id) = .ok base ∧
    fs.readText (h.corpus.modifiedPath id) = .ok modified ∧
    Diff.Document.ofScripts id base modified = .ok d ∧ bytes = Text.encode d.render

/-- Two versions without any statement have a diff without any change. -/
theorem hasDiff_of_isBlank {base modified : String}
    (hBase : fs.readText (h.corpus.sourcePath id) = .ok base)
    (hModified : fs.readText (h.corpus.modifiedPath id) = .ok modified)
    (hBlank : Script.IsBlank base.toList) (hBlank' : Script.IsBlank modified.toList) :
    h.HasDiff id fs (Text.encode (Diff.Document.ofTrees id base modified [] []).render) := by
  refine ⟨base, modified, _, hBase, hModified, ?_, rfl⟩
  exact Diff.Document.ofScripts_of_parse (Script.parse_of_isBlank hBlank) (Script.parse_of_isBlank hBlank')

theorem HasDiff.unique {bytes bytes' : Bytes} (hDiff : h.HasDiff id fs bytes)
    (hDiff' : h.HasDiff id fs bytes') : bytes = bytes' := by
  obtain ⟨base, modified, d, hBase, hModified, hDocument, rfl⟩ := hDiff
  obtain ⟨base', modified', d', hBase', hModified', hDocument', rfl⟩ := hDiff'
  cases hBase.symm.trans hBase'
  cases hModified.symm.trans hModified'
  cases hDocument.symm.trans hDocument'
  rfl

theorem gives_readInput {p : Location} {text : String} (hText : fs.readText p = .ok text) :
    Gives (Diff.readInput p) fs text fs := by
  have hFile : fs.isFile p = true := by
    cases hRead : fs.read p with
    | ok bytes => exact Files.isFile_of_read hRead
    | error e =>
      rw [Files.readText, hRead] at hText
      cases hText
  rw [Diff.readInput, Gives.get_bind_iff, hFile, hText]
  rfl

theorem fails_readInput {p : Location} {e : FileError} (hText : fs.readText p = .error e) :
    ∃ e, Fails (Diff.readInput p) fs e fs := by
  rw [Diff.readInput]
  cases hFile : fs.isFile p with
  | true =>
    refine ⟨.io p e, ?_⟩
    rw [Fails.get_bind_iff, hFile, hText]
    rfl
  | false =>
    refine ⟨.missingInput p, ?_⟩
    rw [Fails.get_bind_iff, hFile]
    rfl

theorem fails_compute (hNone : ∀ bytes, ¬ h.HasDiff id fs bytes) :
    ∃ e, Fails (Diff.compute id (h.corpus.sourcePath id) (h.corpus.modifiedPath id)
      (h.config.diffPath id)) fs e fs := by
  rw [Diff.compute]
  cases hBase : fs.readText (h.corpus.sourcePath id) with
  | error e =>
    obtain ⟨e, hFails⟩ := fails_readInput hBase
    exact ⟨e, hFails.bind _⟩
  | ok base =>
    cases hModified : fs.readText (h.corpus.modifiedPath id) with
    | error e =>
      obtain ⟨e, hFails⟩ := fails_readInput hModified
      exact ⟨e, .gives_bind (gives_readInput hBase) (hFails.bind _)⟩
    | ok modified =>
      cases hDocument : Diff.Document.ofScripts id base modified with
      | ok d => exact absurd ⟨base, modified, d, hBase, hModified, hDocument, rfl⟩ (hNone _)
      | error fault =>
        rcases fault with ⟨_ | _, position⟩
        · refine ⟨.unparsable (h.corpus.sourcePath id) position, .gives_bind (gives_readInput hBase)
            (.gives_bind (gives_readInput hModified) ?_)⟩
          rw [hDocument]
          rfl
        · refine ⟨.unparsable (h.corpus.modifiedPath id) position, .gives_bind (gives_readInput hBase)
            (.gives_bind (gives_readInput hModified) ?_)⟩
          rw [hDocument]
          rfl

theorem run_compute {bytes : Bytes} (hDiff : h.HasDiff id fs bytes) :
    ∃ artifact, (Diff.compute id (h.corpus.sourcePath id) (h.corpus.modifiedPath id)
      (h.config.diffPath id)).run.run fs = ((Files.replacement (h.config.diffPath id) bytes).forM
        Diff.perform >>= fun _ => Pure.pure artifact).run.run fs := by
  obtain ⟨base, modified, d, hBase, hModified, hDocument, rfl⟩ := hDiff
  refine ⟨⟨id, h.corpus.sourcePath id, h.corpus.modifiedPath id, h.config.diffPath id,
    .compute (Text.encode d.render), d.changes.length⟩, ?_⟩
  rw [Diff.compute, (gives_readInput hBase).run_bind, (gives_readInput hModified).run_bind, hDocument]

/-! ## Writing the changes down -/

/-- Nothing stands in the way of a diff. -/
structure Clear (logs : Place) (id : ProgramId) (fs : Files) : Prop where
  diffs : ∀ number, fs.node? (logs ++ ["diffs"]) ≠ some (.file number)
  diff : fs.node? (logs ++ ["diffs", id.render ++ ".diff"]) ≠ some .directory

theorem Clear.congr {logs : Place} (hDiffs : fs'.node? (logs ++ ["diffs"]) = fs.node? (logs ++ ["diffs"]))
    (hDiff : fs'.node? (logs ++ ["diffs", id.render ++ ".diff"]) =
      fs.node? (logs ++ ["diffs", id.render ++ ".diff"])) : Clear logs id fs' ↔ Clear logs id fs := by
  constructor
  · rintro ⟨h₁, h₂⟩
    exact ⟨hDiffs ▸ h₁, hDiff ▸ h₂⟩
  · rintro ⟨h₁, h₂⟩
    exact ⟨hDiffs ▸ h₁, hDiff ▸ h₂⟩

/-- The system can take the location of a diff. -/
def DiffReaches (h : Harness) (id : ProgramId) : Prop :=
  Files.fault? (h.config.diffPath id) = none ∧ Files.isOverlong (id.render ++ ".diff") = false

section Writing

variable {logs : Place} (hLogs : fs.Leads h.config.logDir logs)

include hLogs

theorem clear_made_iff (other : ProgramId) :
    Clear logs other (fs.makeDirectories (Files.join h.config.logDir "diffs")).1 ↔
      Clear logs other fs := by
  rw [Files.makeDirectories_join hLogs plainName_diffs]
  split
  · rfl
  · split
    · rfl
    · split
      · rfl
      · rfl
      · rename_i hNone
        have hNamed := Files.named_snoc logs plainName_diffs
        constructor
        · rintro ⟨-, hDiff⟩
          rw [Files.node?_setName hNamed, if_neg (by simp)] at hDiff
          exact ⟨by simp [hNone], hDiff⟩
        · rintro ⟨-, hDiff⟩
          refine ⟨by simp [Files.node?_setName hNamed], ?_⟩
          rwa [Files.node?_setName hNamed, if_neg (by simp)]

theorem made_eq_none_iff : (fs.makeDirectories (Files.join h.config.logDir "diffs")).2 = none ↔
    Files.fault? (Files.join h.config.logDir "diffs") = none ∧
      ∀ number, fs.node? (logs ++ ["diffs"]) ≠ some (.file number) := by
  have hShort : Files.isOverlong "diffs" = false := by decide
  rw [Files.makeDirectories_join hLogs plainName_diffs, hShort]
  cases Files.fault? (Files.join h.config.logDir "diffs") with
  | some fault => simp
  | none => rcases fs.node? (logs ++ ["diffs"]) with _ | ⟨number | -⟩ <;> simp

theorem linked_diff {bytes : Bytes} {number : Nat}
    (hLink : fs.link number (h.config.diffPath id) = .ok fs')
    (hBytes : fs.contents[number]? = some bytes) :
    (∀ other, Clear logs other fs' ↔ Clear logs other fs) ∧
      fs'.read (h.config.diffPath id) = .ok bytes := by
  have hName := plainName_diff id
  obtain ⟨⟨hFault, hShort, hShort'⟩, hThere, hFree, rfl⟩ :=
    (Files.link_join_join_iff hLogs plainName_diffs hName).mp hLink
  have hNode : ∀ q, (fs.setName (logs ++ ["diffs", id.render ++ ".diff"]) (.file number)).node? q = _ :=
    Files.node?_setName (Files.named_of_ne_directory hFree) (.file number)
  have hAlters : Files.Alters (· = logs ++ ["diffs", id.render ++ ".diff"]) fs
      (fs.setName (logs ++ ["diffs", id.render ++ ".diff"]) (.file number)) := .setName _ rfl hFree
  constructor
  · intro other
    by_cases hSame : other.render ++ ".diff" = id.render ++ ".diff"
    · constructor
      · rintro ⟨-, -⟩
        exact ⟨by simp [hThere], hSame ▸ hFree⟩
      · rintro ⟨-, -⟩
        refine ⟨by simp [hNode, hThere], ?_⟩
        rw [hSame, hNode, if_pos rfl]
        simp
    · exact Clear.congr (by rw [hNode, if_neg (by simp)])
        (by rw [hNode, if_neg (by simpa using hSame)])
  · have hPlace := Files.place_join_join (hLogs.standing hAlters.standing) plainName_diffs hName
    rw [hFault, hShort, hShort', hAlters.standing _ hThere] at hPlace
    simp only [Bool.false_eq_true, if_false] at hPlace
    refine Files.Stores.read ⟨⟨logs ++ ["diffs", id.render ++ ".diff"], ?_⟩, hBytes⟩
    rw [Files.find_eq, Config.diffPath, hPlace]
    simp only [hNode, if_pos]

/-- The changes are computed and written exactly when there are changes, the system can take their
location and the way is clear. Either way no other diff is concerned. -/
theorem compute_cases (id : ProgramId) :
    ∃ fs', (∀ other, Clear logs other fs' ↔ Clear logs other fs) ∧
      (fs' = fs ∨ fs'.node? (logs ++ ["diffs"]) = some .directory) ∧
      ((∃ bytes artifact, h.HasDiff id fs bytes ∧ h.DiffReaches id ∧ Clear logs id fs ∧
        Gives (Diff.compute id (h.corpus.sourcePath id) (h.corpus.modifiedPath id)
          (h.config.diffPath id)) fs artifact fs' ∧
        fs'.read (h.config.diffPath id) = .ok bytes) ∨
      (∀ bytes, h.HasDiff id fs bytes → h.DiffReaches id → ¬ Clear logs id fs) ∧
        ∃ e, Fails (Diff.compute id (h.corpus.sourcePath id) (h.corpus.modifiedPath id)
          (h.config.diffPath id)) fs e fs') := by
  by_cases hDiff : ∃ bytes, h.HasDiff id fs bytes
  · obtain ⟨bytes, hDiff⟩ := hDiff
    obtain ⟨artifact, hRun⟩ := run_compute hDiff
    have hDirectory : Files.directoryOf (h.config.diffPath id) =
        Files.join h.config.logDir "diffs" := Files.directoryOf_join plainName_diffs (plainName_diff id)
    have hClear := clear_made_iff hLogs
    have hFree := made_eq_none_iff hLogs
    have hAlters := Files.alters_makeDirectories hLogs plainName_diffs
    rcases hMade : fs.makeDirectories (Files.join h.config.logDir "diffs") with ⟨made, _ | e⟩
    · rw [hMade] at hClear hFree hAlters
      have hStaged : (made.stage bytes).2.Leads h.config.logDir logs := hLogs.standing hAlters.standing
      have hClear₁ : ∀ other, Clear logs other (made.stage bytes).2 ↔ Clear logs other fs := by
        intro other
        rw [← hClear other]
        exact Clear.congr rfl rfl
      have hLast : (made.stage bytes).2.contents[made.contents.length]? = some bytes := by
        simp [Files.stage]
      cases hLink : (made.stage bytes).2.link made.contents.length (h.config.diffPath id) with
      | ok fs' =>
        obtain ⟨hClear', hRead⟩ := linked_diff hStaged hLink hLast
        obtain ⟨⟨hFault, -, hShort⟩, hThere, hNot, hNamed⟩ :=
          (Files.link_join_join_iff hStaged plainName_diffs (plainName_diff id)).mp hLink
        have hThere' : fs'.node? (logs ++ ["diffs"]) = some .directory := by
          rw [hNamed, Files.node?_setName (Files.named_of_ne_directory hNot), if_neg (by simp), hThere]
        have hGives := Diff.carries_perform.gives_linked (hDirectory ▸ hMade) hLink
        refine ⟨fs', fun other => (hClear' other).trans (hClear₁ other), .inr hThere', .inl ⟨bytes, artifact,
          hDiff, ⟨hFault, hShort⟩, ⟨(hFree.mp rfl).2, ?_⟩, hRun.trans (hGives.run_bind _), hRead⟩⟩
        rw [← hAlters.node _ (by simp)]
        exact hNot
      | error e =>
        obtain ⟨e, hFails⟩ := Diff.carries_perform.fails_linked (hDirectory ▸ hMade) hLink
        have hThere := Files.directory_of_makeDirectories hLogs plainName_diffs hMade
        refine ⟨(made.stage bytes).2, hClear₁, .inr hThere, .inr ⟨fun bytes _ hReach hWay => ?_, e,
          hRun.trans (hFails.bind _)⟩⟩
        have hNot := hWay.diff
        rw [← hAlters.node _ (by simp)] at hNot
        cases hLink.symm.trans ((Files.link_join_join_iff hStaged plainName_diffs
          (plainName_diff id)).mpr ⟨⟨hReach.1, by decide, hReach.2⟩, hThere, hNot, rfl⟩)
    · rw [hMade] at hClear hFree
      have hFails : ∃ e, Fails ((Files.replacement (h.config.diffPath id) bytes).forM Diff.perform) fs e
        made := Diff.carries_perform.fails_made (hDirectory ▸ hMade)
      obtain ⟨e, hFails⟩ := hFails
      refine ⟨made, hClear, .inl (Files.eq_of_makeDirectories hLogs plainName_diffs hMade),
        .inr ⟨fun bytes _ hReach hWay => ?_, e, hRun.trans (hFails.bind _)⟩⟩
      have hNone := hFree.mpr ⟨Files.fault?_of_join (plainName_diff id) hReach.1, hWay.diffs⟩
      cases hNone
  · rw [not_exists] at hDiff
    obtain ⟨e, hFails⟩ := fails_compute hDiff
    exact ⟨fs, fun _ => Iff.rfl, .inl rfl, .inr ⟨fun bytes hBytes => absurd hBytes (hDiff bytes), e, hFails⟩⟩

theorem filesWithDiff_cases (id : ProgramId) :
    (∀ other, Clear logs other (h.filesWithDiff id fs) ↔ Clear logs other fs) ∧
      (h.filesWithDiff id fs = fs ∨
        (h.filesWithDiff id fs).node? (logs ++ ["diffs"]) = some .directory) := by
  obtain ⟨fs', hClear, hNodes, hCases⟩ := compute_cases hLogs id
  have hFiles : h.filesWithDiff id fs = fs' := by
    rw [filesWithDiff]
    rcases hCases with ⟨bytes, artifact, -, -, -, hGives, -⟩ | ⟨-, e, hFails⟩
    · rw [hGives]
    · rw [hFails]
  rw [hFiles]
  exact ⟨hClear, hNodes⟩

theorem extractDiff_cases {run : Runner σ} {w w' : World σ} {message : Option String} (hFiles : w.files = fs)
    (hDiffer : h.config.differ.external? = none)
    (hRun : Gives (h.extractDiff run id (h.corpus.sourcePath id) (h.corpus.modifiedPath id)
      (h.config.diffPath id)) w message w') :
    (message = none ∧ ∃ bytes, h.HasDiff id fs bytes ∧ h.DiffReaches id ∧ Clear logs id fs ∧
      w'.files.read (h.config.diffPath id) = .ok bytes) ∨
    (∃ text, message = some text) ∧
      ∀ bytes, h.HasDiff id fs bytes → h.DiffReaches id → ¬ Clear logs id fs := by
  obtain ⟨fs', -, -, hCases⟩ := compute_cases hLogs id
  rw [extractDiff, hDiffer] at hRun
  dsimp only at hRun
  rw [Gives.get_bind_iff, hFiles] at hRun
  rcases hCases with ⟨bytes, artifact, hDiff, hReach, hWay, hGives, hRead⟩ | ⟨hNot, e, hFails⟩
  · rw [hGives] at hRun
    simp only [Gives.bind_iff, Gives.set_iff, Gives.pure_iff] at hRun
    obtain ⟨_, _, rfl, rfl, rfl⟩ := hRun
    exact .inl ⟨rfl, bytes, hDiff, hReach, hWay, hRead⟩
  · rw [hFails] at hRun
    simp only [Gives.bind_iff, Gives.set_iff, Gives.pure_iff] at hRun
    obtain ⟨_, _, rfl, rfl, rfl⟩ := hRun
    exact .inr ⟨⟨_, rfl⟩, hNot⟩

end Writing

theorem sounds_compute (id : ProgramId) (base modified result : Location) :
    Sounds (fun fs => fs) (Diff.compute id base modified result) :=
  Diff.within_compute (fun _ hSound => hSound) (fun _ _ _ hFirst hSecond hSound => hSecond (hFirst hSound))
    (fun bytes => Diff.carries_perform.sounds result bytes) id base modified

theorem sound_filesWithDiff (hSound : fs.Sound) (id : ProgramId) : (h.filesWithDiff id fs).Sound :=
  sounds_compute id _ _ _ fs hSound

end Harness

end Reanalysis
