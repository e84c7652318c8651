import Reanalysis.Proofs.Harness.Step
import Reanalysis.Proofs.Log.Writing

/-!
# Files that steps leave alone

A step writes states, sidecars and diffs, and lines to its own logs. A file with another name that is no
log of the step is where it was afterwards, and holds what it held, whether the step fails or not, as
long as the engine leaves it alone.
-/

namespace Reanalysis

open Files (Location Apart Spares)
open CacheStore (blobName metaName)

variable {ε σ α β : Type} {path : Location} {number : Nat}

/-! ## Actions that spare a file -/

/-- The file that is stored at the location under this number is still there afterwards. -/
def Sparing (view : σ → Files) (path : Location) (number : Nat) (x : ExceptT ε (StateM σ) α) : Prop :=
  Within (fun w w' => Spares path number (view w) (view w')) x

namespace Sparing

variable {view : σ → Files}

theorem pure (a : α) : Sparing view path number (Pure.pure a : ExceptT ε (StateM σ) α) :=
  Within.pure (fun _ => .refl _ _ _) a

theorem throw (e : ε) : Sparing view path number (MonadExcept.throw e : ExceptT ε (StateM σ) α) :=
  Within.throw (fun _ => .refl _ _ _) e

theorem bind {x : ExceptT ε (StateM σ) α} {f : α → ExceptT ε (StateM σ) β}
    (hx : Sparing view path number x) (hf : ∀ a, Sparing view path number (f a)) :
    Sparing view path number (x >>= f) :=
  Within.bind (fun _ _ _ => .trans _ _ _ _ _) hx hf

theorem get_bind {f : σ → ExceptT ε (StateM σ) α} (h : ∀ w, Sparing view path number (f w)) :
    Sparing view path number (get >>= f) := fun w => h w w

theorem forM {f : β → ExceptT ε (StateM σ) PUnit} {bs : List β}
    (hf : ∀ b ∈ bs, Sparing view path number (f b)) : Sparing view path number (bs.forM f) := by
  induction bs with
  | nil => exact pure _
  | cons b bs ih =>
    exact bind (hf b List.mem_cons_self) fun _ => ih fun c hc => hf c (List.mem_cons_of_mem _ hc)

theorem mapM {f : β → ExceptT ε (StateM σ) α} (hf : ∀ b, Sparing view path number (f b)) (bs : List β) :
    Sparing view path number (bs.mapM f) := by
  induction bs with
  | nil => exact pure _
  | cons b bs ih =>
    rw [List.mapM_cons]
    exact bind (hf b) fun _ => bind ih fun _ => pure _

theorem of_readOnly {x : ExceptT ε (StateM σ) α} (h : ReadOnly x) : Sparing view path number x := by
  intro w
  rw [h w]
  exact .refl _ _ _

end Sparing

/-! ## The store -/

theorem FileStep.spares {step : FileStep} (h : ∀ p, step = .publish p → Apart path p) (fs : Files) :
    Spares path number fs (step.run fs).1 := by
  cases step with
  | makeDirectories dir => exact (Files.grows_makeDirectories dir).spares
  | stage bytes => exact (Files.Grows.stage bytes).spares
  | publish p =>
    rw [FileStep.run]
    split
    · rename_i hLinked
      exact Files.spares_link (h p rfl) hLinked
    · exact .refl _ _ _

theorem Files.publish_of_mem_replacement {p q : Location} {bytes : Bytes} {step : FileStep}
    (hStep : step ∈ replacement p bytes) (h : step = .publish q) : q = p := by
  subst h
  simpa [replacement] using hStep

namespace StoreAction

theorem sparing_perform {step : FileStep} (h : ∀ p, step = .publish p → Apart path p) :
    Sparing id path number (perform step) := by
  refine Within.get_bind fun fs => ?_
  have hStep : Spares path number fs (step.run fs).1 := FileStep.spares h fs
  rcases hRun : step.run fs with ⟨fs', _ | failure⟩ <;> rw [hRun] at hStep <;> exact hStep

theorem sparing_removeOptional {p : Location} (h : Apart path p) :
    Sparing id path number (removeOptional p) := by
  refine Within.get_bind fun fs => ?_
  split
  · rename_i hRemoved
    exact Files.spares_removeFile h hRemoved
  · exact .refl _ _ _
  · exact .refl _ _ _

theorem sparing_change {p : Location} {f : Files → Except FileError Files}
    (h : ∀ fs fs', f fs = .ok fs' → Spares path number fs fs') :
    Sparing id path number (change p f) := by
  refine Within.get_bind fun fs => ?_
  split
  · rename_i hChanged
    exact h _ _ hChanged
  · exact .refl _ _ _

end StoreAction

/-- No state, no sidecar and no diff is written to the location. -/
structure Reserved (path : Location) : Prop where
  blob : ∀ dir, Apart path (Files.join dir blobName)
  sidecar : ∀ dir, Apart path (Files.join dir metaName)
  diff : ∀ dir (id : ProgramId), Apart path (Files.join dir (id.render ++ ".diff"))

theorem reserved_join (dir : Location) {name : String} (hName : Files.PlainName name)
    (hBlob : name ≠ blobName) (hMeta : name ≠ metaName) (hDiff : name.toList.getLast? ≠ some 'f') :
    Reserved (Files.join dir name) where
  blob dir' :=
    ⟨dir, name, dir', blobName, rfl, rfl, hName, CacheStore.entryName_blob.toPlainName, hBlob⟩
  sidecar dir' :=
    ⟨dir, name, dir', metaName, rfl, rfl, hName, CacheStore.entryName_meta.toPlainName, hMeta⟩
  diff dir' id := by
    refine ⟨dir, name, dir', _, rfl, rfl, hName, Harness.plainName_diff id, ?_⟩
    rintro rfl
    rw [String.toList_append, List.getLast?_append] at hDiff
    exact hDiff rfl

namespace CacheStore

variable (s : CacheStore) (hPath : Reserved path)

include hPath

theorem sparing_discardProduced (n : Nat) : Sparing id path number (s.discardProduced n) :=
  .bind (StoreAction.sparing_removeOptional (hPath.blob _)) fun _ => .pure _

theorem sparing_discard (program : ProgramId) : Sparing id path number (s.discard program) :=
  .bind (StoreAction.sparing_removeOptional (hPath.blob _)) fun _ =>
    .bind (StoreAction.sparing_removeOptional (hPath.sidecar _)) fun _ => .pure _

theorem sparing_register (program : ProgramId) (base : Option Digest) :
    Sparing id path number (s.register program base) := by
  refine .bind (.of_readOnly (Harness.readOnly_readOptional _)) fun found => ?_
  cases found with
  | none => exact .pure _
  | some state =>
    refine .bind (.forM fun step hStep => StoreAction.sparing_perform fun p hp => ?_) fun _ => .pure _
    rw [Files.publish_of_mem_replacement hStep hp]
    exact hPath.sidecar _

theorem sparing_adopt (program : ProgramId) (n : Nat) (base : Option Digest) :
    Sparing id path number (s.adopt program n base) := by
  rw [adopt]
  split
  · exact s.sparing_register hPath program base
  · refine .get_bind fun fs => ?_
    split
    · exact .pure _
    · refine .bind (StoreAction.sparing_perform (by simp)) fun _ => .bind (StoreAction.sparing_change ?_)
        fun _ => s.sparing_register hPath program base
      intro fs fs' hRenamed
      exact Files.spares_rename (hPath.blob _) (hPath.blob _) hRenamed

end CacheStore

theorem Diff.sparing_compute (program : ProgramId) (base modified : Location) {result : Location}
    (h : Apart path result) : Sparing id path number (Diff.compute program base modified result) := by
  refine within_compute (fun _ => .refl _ _ _) (fun _ _ _ => .trans _ _ _ _ _) (fun bytes => ?_)
    program base modified
  refine Sparing.forM fun step hStep => within_perform (FileStep.spares fun p hp => ?_)
  rw [Files.publish_of_mem_replacement hStep hp]
  exact h

/-! ## The harness -/

/-- Nothing that is run touches a file at the location. -/
def Runner.LeavesAlone (run : Runner σ) (path : Location) : Prop :=
  ∀ command w number, Spares path number w.files ((run command).run w).2.files

namespace HarnessAction

theorem sparing_files : Sparing World.files path number (files : HarnessAction σ Files) :=
  .get_bind fun _ => .pure _

theorem sparing_onFiles {wrap : ε → HarnessError} {action : ExceptT ε (StateM Files) α}
    (h : Sparing id path number action) :
    Sparing World.files path number (onFiles wrap action : HarnessAction σ α) := by
  refine Within.get_bind fun w => ?_
  have hAction := h w.files
  rcases hRun : action.run.run w.files with ⟨e | a, fs⟩ <;> rw [hRun] at hAction <;> exact hAction

theorem sparing_ofStore {action : StoreAction α} (h : Sparing id path number action) :
    Sparing World.files path number (ofStore action : HarnessAction σ α) := sparing_onFiles h

theorem sparing_ofCommand (x : Except CommandError α) :
    Sparing World.files path number (ofCommand x : HarnessAction σ α) := by
  cases x with
  | ok a => exact .pure a
  | error e => exact .throw _

theorem sparing_makeDirectories (p dir : Location) :
    Sparing World.files path number (makeDirectories p dir : HarnessAction σ Unit) := by
  refine Within.get_bind fun w => ?_
  have hMade : Spares path number w.files (w.files.makeDirectories dir).1 :=
    (Files.grows_makeDirectories dir).spares
  rcases hRun : w.files.makeDirectories dir with ⟨fs, _ | e⟩ <;> rw [hRun] at hMade <;> exact hMade

theorem sparing_run {run : Runner σ} (hRun : run.LeavesAlone path) (command : Command) :
    Sparing World.files path number (liftM (run command) : HarnessAction σ Outcome) :=
  fun w => hRun command w number

end HarnessAction

namespace Harness

open HarnessAction

variable {h : Harness} {run : Runner σ} {log coverage : Log} {program : ProgramId}

theorem sparing_withSource (p : Location) {go : HarnessAction σ StepReport}
    (hGo : Sparing World.files path number go) :
    Sparing World.files path number (withSource p go) := by
  refine .bind sparing_files fun fs => ?_
  split
  · exact hGo
  · exact .pure _

theorem sparing_digestOf (p : Location) :
    Sparing World.files path number (digestOf p : HarnessAction σ Digest) := by
  refine .bind sparing_files fun fs => ?_
  split
  · exact .pure _
  · exact .throw _

theorem sparing_usableState (base : Digest) :
    Sparing World.files path number (h.usableState program base : HarnessAction σ _) := by
  refine Within.get_bind fun w => ?_
  have hSame := readOnly_lookup h.store program base w.files
  rcases hLookup : (h.store.lookup program base).run.run w.files with ⟨found, fs⟩
  rw [hLookup] at hSame
  subst hSame
  rcases found with e | lookup
  · cases e <;> exact .refl _ _ _
  · exact .refl _ _ _

theorem sparing_removed {launch : Unit → HarnessAction σ α} {result : Location}
    (hResult : Apart path result) (hLaunch : ∀ u, Sparing World.files path number (launch u)) :
    Sparing World.files path number (do
      match (← files).removeFile result with
      | .ok fs => modify (fun w => { w with files := fs }) >>= launch
      | .error .notFound => launch ()
      | .error e => throw (.io result e) >>= launch) := by
  refine Within.get_bind fun w => ?_
  cases hRemoved : w.files.removeFile result with
  | ok fs =>
    exact .trans _ _ _ _ _ (Files.spares_removeFile hResult hRemoved)
      (hLaunch () { w with files := fs })
  | error e =>
    cases e with
    | notFound => exact hLaunch () w
    | _ => exact .refl _ _ _

section Steps

variable (hPath : Reserved path) (hRun : run.LeavesAlone path)

theorem sparing_append (hNumber : log.number ≠ number) (value : Json.Value) :
    Sparing World.files path number (ofStore (log.append value) : HarnessAction σ Log) := by
  refine sparing_ofStore (Within.get_bind fun fs => ?_)
  split
  · exact Files.spares_setContent hNumber _
  · exact Files.spares_setContent hNumber _

include hRun in
theorem sparing_execute (hNumber : log.number ≠ number) (command : Command) (mode : Mode)
    (budget : Option Float) :
    Sparing World.files path number (execute run log command program mode budget) :=
  .bind (sparing_run hRun command) fun _ => .bind (sparing_append hNumber _) fun _ => .pure _

include hPath

theorem sparing_discards (produced : List Nat) :
    Sparing World.files path number
      (produced.forM fun n => (ofStore (h.store.discardProduced n) : HarnessAction σ Unit)) :=
  .forM fun n _ => sparing_ofStore (h.store.sparing_discardProduced hPath n)

theorem sparing_keepState (base : Digest) (produced : List Nat) :
    Sparing World.files path number (h.keepState program base produced : HarnessAction σ Unit) := by
  rw [keepState]
  split
  · exact .bind (sparing_discards hPath _) fun _ =>
      .bind (sparing_ofStore (h.store.sparing_adopt hPath _ _ _)) fun _ => .pure _
  · exact .bind (sparing_ofStore (h.store.sparing_register hPath _ _)) fun _ => .pure _

theorem sparing_dropState (produced : List Nat) :
    Sparing World.files path number (h.dropState program produced : HarnessAction σ Unit) :=
  .bind (sparing_discards hPath _) fun _ =>
    .bind (sparing_ofStore (h.store.sparing_discard hPath _)) fun _ => .pure _

omit hPath in
include hRun in
theorem sparing_runDiffer (argv : List String) (base modified : Location) {result : Location}
    (hResult : Apart path result) :
    Sparing World.files path number (h.runDiffer run argv base modified result) := by
  rw [runDiffer]
  extract_lets launch
  have hLaunch : ∀ u, Sparing World.files path number (launch u) := by
    intro u
    refine .bind sparing_files fun _ => .bind (sparing_ofCommand _) fun command =>
      .bind (sparing_run hRun command) fun outcome => ?_
    split
    · split
      · exact .bind sparing_files fun fs => by split <;> exact .pure _
      · exact .pure _
    · exact .pure _
    · exact .pure _
  split
  · exact .bind (sparing_makeDirectories _ _) fun _ => sparing_removed hResult hLaunch
  · exact sparing_removed hResult hLaunch

include hRun

theorem sparing_extractDiff (base modified dir : Location) :
    Sparing World.files path number (h.extractDiff run program base modified
      (Files.join dir (program.render ++ ".diff"))) := by
  rw [extractDiff]
  split
  · exact sparing_runDiffer hRun _ _ _ (hPath.diff _ _)
  · refine Within.get_bind fun w => ?_
    have hCompute : Sparing id path number (Diff.compute program base modified
        (Files.join dir (program.render ++ ".diff"))) :=
      Diff.sparing_compute program base modified (hPath.diff dir program)
    have hDiff := hCompute w.files
    rcases hDone : (Diff.compute program base modified
      (Files.join dir (program.render ++ ".diff"))).run.run w.files with ⟨e | d, fs⟩ <;>
      rw [hDone] at hDiff <;> exact hDiff

theorem sparing_fullStep (hNumber : log.number ≠ number) :
    Sparing World.files path number (h.fullStep run log program) := by
  refine sparing_withSource _ (.bind (sparing_digestOf _) fun base => .bind sparing_files fun _ =>
    .bind (sparing_ofCommand _) fun command =>
    .bind (sparing_ofStore (h.store.sparing_discard hPath program)) fun _ =>
    .bind sparing_files fun _ => .bind (sparing_execute hRun hNumber _ _ _) ?_)
  rintro ⟨result, _⟩
  refine .bind sparing_files fun _ => ?_
  split
  · exact .bind (sparing_keepState hPath _ _) fun _ => .pure _
  · exact .bind (sparing_dropState hPath _) fun _ => .pure _

theorem sparing_targetedStep (hNumber : log.number ≠ number) :
    Sparing World.files path number (h.targetedStep run log program) := by
  refine sparing_withSource _ (sparing_withSource _
    (.bind (sparing_extractDiff hPath hRun _ _ _) fun message => ?_))
  cases message with
  | some message => exact .pure _
  | none =>
    refine .bind (sparing_digestOf _) fun digest => .bind (sparing_usableState digest) fun found => ?_
    cases found with
    | some cache =>
      exact .bind sparing_files fun _ => .bind (sparing_ofCommand _) fun command =>
        .bind (sparing_execute hRun hNumber _ _ _) fun _ => .pure _
    | none =>
      exact .bind sparing_files fun _ => .bind (sparing_ofCommand _) fun command =>
        .bind (sparing_execute hRun hNumber _ _ _) fun _ => .pure _

omit hPath

theorem sparing_timingStep (hNumber : log.number ≠ number) :
    Sparing World.files path number (h.timingStep run log program) :=
  sparing_withSource _ (.bind sparing_files fun _ => .bind (sparing_ofCommand _) fun _ =>
    .bind (sparing_execute hRun hNumber _ _ _) fun _ => .pure _)

theorem sparing_fuzzRun (hNumber : log.number ≠ number) (hCoverage : coverage.number ≠ number)
    (harness : Location) (budget : Float) :
    Sparing World.files path number (h.fuzzRun run log coverage program harness budget) := by
  refine .bind sparing_files fun _ => .bind (sparing_ofCommand _) fun _ =>
    .bind (sparing_execute hRun hNumber _ _ _) ?_
  rintro ⟨result, stdout⟩
  dsimp only
  split
  · exact .pure _
  · split
    · exact .throw _
    · exact .bind (sparing_append hCoverage _) fun _ => .pure _

theorem sparing_fuzzStep (hNumber : log.number ≠ number) (hCoverage : coverage.number ≠ number) :
    Sparing World.files path number (h.fuzzStep run log coverage program) := by
  refine sparing_withSource _ ?_
  generalize h.config.fuzzBudgets = budgets
  induction budgets with
  | nil => exact .pure _
  | cons budget budgets ih =>
    exact .bind (sparing_fuzzRun hRun hNumber hCoverage _ _) fun _ => .bind ih fun _ => .pure _

end Steps

end Harness

def OpenStep.logs : OpenStep → List Log
  | .full log | .timing log | .targeted log => [log]
  | .fuzz log coverage => [log, coverage]

theorem Harness.sparing_runStep {h : Harness} {run : Runner σ} (hPath : Reserved path)
    (hRun : run.LeavesAlone path) (program : ProgramId) {step : OpenStep}
    (hLogs : ∀ log ∈ step.logs, log.number ≠ number) :
    Sparing World.files path number (h.runStep run program step) := by
  cases step with
  | full log => exact sparing_fullStep hPath hRun (hLogs log List.mem_cons_self)
  | timing log => exact sparing_timingStep hRun (hLogs log List.mem_cons_self)
  | targeted log => exact sparing_targetedStep hPath hRun (hLogs log List.mem_cons_self)
  | fuzz log coverage =>
    exact sparing_fuzzStep hRun (hLogs log List.mem_cons_self) (hLogs coverage (by simp [OpenStep.logs]))

end Reanalysis
