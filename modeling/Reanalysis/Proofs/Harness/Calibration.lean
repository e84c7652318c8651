import Reanalysis.Proofs.Files.Removal
import Reanalysis.Proofs.Harness.Changes
import Reanalysis.Proofs.Harness.Commands
import Reanalysis.Proofs.Magnitude
import Reanalysis.Proofs.Report.Summary

/-!
# Calibration

A calibration takes the same number of samples in each mode. Either each mode has one that came to an end
by itself, and the medians of their times are stored, or nothing is stored at all. The median is the one
that summaries of the same times have.
-/

namespace Reanalysis

open Files (Location)

variable {σ : Type}

/-! ## Samples -/

/-- The time of a run that came to an end by itself, whatever its code. -/
def Outcome.exitTime? (o : Outcome) : Option Float :=
  match o.exit with
  | .exited _ => some o.elapsed.toSeconds
  | _ => none

def exitTimes (outcomes : List Outcome) : List Float := outcomes.filterMap Outcome.exitTime?

/-- What the runs of a command come to, one after the other. -/
def Runner.outcomes (run : Runner σ) (command : Command) : Nat → StateM (World σ) (List Outcome)
  | 0 => return []
  | n + 1 => do
    let outcome ← run command
    let rest ← run.outcomes command n
    return outcome :: rest

namespace Runner

variable (run : Runner σ) (command : Command)

theorem run_outcomes_succ (n : Nat) (w : World σ) :
    (run.outcomes command (n + 1)).run w =
      (((run command).run w).1 :: ((run.outcomes command n).run ((run command).run w).2).1,
        ((run.outcomes command n).run ((run command).run w).2).2) := rfl

theorem outcomes_induct {R : World σ → World σ → Prop} (hRefl : ∀ w, R w w)
    (hTrans : ∀ u v w, R u v → R v w → R u w) (hRun : ∀ w, R w ((run command).run w).2) (n : Nat)
    (w : World σ) : R w ((run.outcomes command n).run w).2 := by
  induction n generalizing w with
  | zero => exact hRefl w
  | succ n ih => exact hTrans _ _ _ (hRun w) (ih _)

theorem forall_outcomes {P : Outcome → Prop} (hRun : ∀ w, P ((run command).run w).1) (n : Nat)
    (w : World σ) : ∀ o ∈ ((run.outcomes command n).run w).1, P o := by
  induction n generalizing w with
  | zero =>
    intro o ho
    cases ho
  | succ n ih =>
    rw [run_outcomes_succ]
    exact List.forall_mem_cons.mpr ⟨hRun w, ih _⟩

end Runner

theorem Harness.sampleTimes_eq (run : Runner σ) (command : Command) (n : Nat) (w : World σ) :
    (sampleTimes run command n).run w =
      (exitTimes ((run.outcomes command n).run w).1, ((run.outcomes command n).run w).2) := by
  induction n generalizing w with
  | zero => rfl
  | succ n ih =>
    rcases hRun : (run command).run w with ⟨⟨exit, elapsed, stdout, stderr⟩, w₁⟩
    rw [sampleTimes, Runner.run_outcomes_succ]
    simp only [StateT.run_bind, hRun, ih]
    cases exit <;> rfl

theorem isFinite_of_mem_exitTimes {outcomes : List Outcome} {x : Float} (hx : x ∈ exitTimes outcomes)
    (h : ∀ o ∈ outcomes, o.elapsed.nanos ≤ Duration.longest.nanos) : x.isFinite = true := by
  obtain ⟨⟨exit, elapsed, stdout, stderr⟩, ho, hTime⟩ := List.mem_filterMap.mp hx
  cases exit with
  | exited code =>
    cases hTime
    exact Duration.isFinite_toSeconds (h _ ho)
  | timedOut => cases hTime
  | launchFailed message => cases hTime

/-! ## Medians -/

namespace Summary

theorem ascending_of_finite {xs : List Float} (h : ∀ x ∈ xs, x.isFinite = true) :
    ascending xs = xs.mergeSort floatLe := by
  rw [ascending, List.filter_eq_self.mpr h]

/-- The middle of finite values is the median of their summary, in whatever order they are. -/
theorem middle?_mergeSort {xs ys : List Float} (hFinite : ∀ x ∈ xs, x.isFinite = true)
    (hPerm : ys.Perm xs) : middle? (xs.mergeSort floatLe) = (of? ys).map median := by
  rw [← ascending_of_finite hFinite, ← ascending_eq_of_perm hPerm]
  rcases Nat.eq_zero_or_pos (ascending ys).length with hZero | hPos
  · have hNil := List.length_eq_zero_iff.mp hZero
    rw [of?_of_ascending_nil hNil, hNil]
    rfl
  · rw [of?_eq hPos, middle?_eq hPos]
    rfl

theorem middle?_eq_none_iff {xs : List Float} : middle? (xs.mergeSort floatLe) = none ↔ xs = [] := by
  rcases Nat.eq_zero_or_pos xs.length with hZero | hPos
  · rw [List.length_eq_zero_iff.mp hZero]
    exact iff_of_true (by simp [middle?]) rfl
  · rw [middle?_eq (by rwa [List.length_mergeSort])]
    exact iff_of_false (Option.some_ne_none _) (List.ne_nil_of_length_pos hPos)

theorem exists_middle {xs : List Float} (h : xs.isEmpty = false) :
    ∃ x, middle? (xs.mergeSort floatLe) = some x := by
  apply Option.ne_none_iff_exists'.mp
  rw [ne_eq, middle?_eq_none_iff, ← List.isEmpty_iff, h]
  exact Bool.false_ne_true

end Summary

/-! ## Actions that fail -/

/-- The action relates the state before and after it when it fails. -/
def FailsWithin {ε ρ α : Type} (R : ρ → ρ → Prop) (x : ExceptT ε (StateM ρ) α) : Prop :=
  ∀ w e w', Fails x w e w' → R w w'

theorem FailsWithin.bind {ε ρ α β : Type} {R : ρ → ρ → Prop} (hTrans : ∀ u v w, R u v → R v w → R u w)
    {x : ExceptT ε (StateM ρ) α} {f : α → ExceptT ε (StateM ρ) β} (hx : Within R x)
    (hf : ∀ a, FailsWithin R (f a)) : FailsWithin R (x >>= f) := by
  intro w e w' hFails
  rcases hFails.of_bind with hFirst | ⟨a, w₁, hFirst, hRest⟩
  · exact hx.of_fails hFirst
  · exact hTrans _ _ _ (hx.of_gives hFirst) (hf a w₁ e w' hRest)

namespace FileStep.Carries

variable {ε : Type} {perform : FileStep → ExceptT ε (StateM Files) Unit} (hPerform : Carries perform)
  {dir name : Location} {bytes : Bytes} {fs fs' : Files} {e : ε}

include hPerform

/-- A replacement that fails takes nothing away, and there is no file that it could have replaced. -/
theorem unread_of_fails (hName : Files.PlainName name)
    (h : Fails ((Files.replacement (Files.join dir name) bytes).forM perform) fs e fs') :
    Files.Grows fs fs' ∧ ∀ held, fs'.read (Files.join dir name) ≠ .ok held := by
  have hGrows : Files.Grows fs (fs.makeDirectories (Files.directoryOf (Files.join dir name))).1 :=
    Files.grows_makeDirectories _
  rcases hMade : fs.makeDirectories (Files.directoryOf (Files.join dir name)) with ⟨made, _ | cause⟩
  · rw [hMade] at hGrows
    cases hLink : (made.stage bytes).2.link made.contents.length (Files.join dir name) with
    | ok linked => exact absurd (hPerform.gives_linked hMade hLink) h.not_gives
    | error cause =>
      obtain ⟨_, hFails⟩ := hPerform.fails_linked hMade hLink
      obtain rfl : (made.stage bytes).2 = fs' := (Prod.ext_iff.mp (hFails.symm.trans h)).2
      refine ⟨hGrows.trans (.stage bytes), fun held hRead => ?_⟩
      -- A file in the way would not have kept the link from being made.
      obtain ⟨place, number, hFound⟩ := Files.find_of_read hRead
      rw [Files.link_of_find hFound] at hLink
      cases hLink
  · obtain ⟨_, hFails⟩ : ∃ e, Fails ((Files.replacement (Files.join dir name) bytes).forM perform) fs e
        made := hPerform.fails_made hMade
    obtain rfl : made = fs' := (Prod.ext_iff.mp (hFails.symm.trans h)).2
    rw [hMade] at hGrows
    refine ⟨hGrows, fun held hRead => ?_⟩
    -- Below a file that can be read the directories would have been there, a second time as well.
    obtain ⟨place, number, hFound⟩ := Files.find_of_read hRead
    have hAgain := Files.makeDirectories_again hMade
    rw [Files.makeDirectories_directoryOf hName hFound] at hAgain
    cases hAgain

end FileStep.Carries

theorem HarnessAction.fails_ofStore {α : Type} {action : StoreAction α} {w w' : World σ}
    {e : HarnessError} (h : Fails (ofStore action : HarnessAction σ α) w e w') :
    ∃ cause, e = .store cause ∧ Fails action w.files cause w'.files := by
  rw [ofStore, onFiles, Fails.get_bind_iff] at h
  rcases hRun : action.run.run w.files with ⟨cause | a, fs⟩
  · rw [hRun] at h
    cases h
    exact ⟨cause, rfl, hRun⟩
  · rw [hRun] at h
    cases h

namespace Harness

open HarnessAction
open Files (join)

variable {h : Harness} {run : Runner σ} {scratch : Location} {w w' : World σ}

section Median

variable {n : Nat} {mode : Mode} {command : Command}

theorem gives_median {x : Float}
    (hMiddle : Summary.middle? ((exitTimes ((run.outcomes command n).run w).1).mergeSort floatLe) =
      some x) :
    Gives (median run n mode command) w x ((run.outcomes command n).run w).2 := by
  refine Gives.bind_iff.mpr ⟨_, _, Gives.lift_iff.mpr (sampleTimes_eq run command n w), ?_⟩
  rw [hMiddle]
  exact Gives.pure_iff.mpr ⟨rfl, rfl⟩

theorem fails_median (hNone : exitTimes ((run.outcomes command n).run w).1 = []) :
    Fails (median run n mode command) w (.calibration mode) ((run.outcomes command n).run w).2 := by
  refine .gives_bind (Gives.lift_iff.mpr (sampleTimes_eq run command n w)) ?_
  rw [Summary.middle?_eq_none_iff.mpr hNone]
  rfl

end Median

/-! ## Measurements -/

theorem plainName_overheadFile : Files.PlainName overheadFile :=
  ⟨by decide, by decide, by decide, by decide⟩

def sampling (h : Harness) (run : Runner σ) (full targeted cold : Command) :
    HarnessAction σ Overhead := do
  let fullTime ← median run h.config.calibrationSamples .full full
  let targetedTime ← median run h.config.calibrationSamples .targeted targeted
  let coldTime ← median run h.config.calibrationSamples .cold cold
  let overhead : Overhead := ⟨fullTime, targetedTime, coldTime, h.config.calibrationSamples, h.now⟩
  ofStore (overhead.save (h.config.logPath overheadFile))
  return overhead

def scratchPaths (scratch : Location) : List Location :=
  [join scratch "empty.jse.js", join scratch "cache", join scratch "empty.diff"]

/-- The scratch files are written, and the commands of all three modes are built. -/
structure Trial (h : Harness) (scratch : Location) (w : World σ) where
  ready : World σ
  full : Command
  targeted : Command
  cold : Command
  written : Gives (writeScratch (scratchPaths scratch)) w ⟨⟩ ready
  built_full : (Request.full (join scratch "empty.jse.js") false).command h.config ready.files = .ok full
  built_targeted : (Request.targeted (join scratch "cache") (join scratch "empty.diff")).command h.config
    ready.files = .ok targeted
  built_cold : (Request.cold (join scratch "empty.jse.js")).command h.config ready.files = .ok cold

namespace Trial

variable (t : h.Trial scratch w) (run : Runner σ)

def fullRuns : List Outcome × World σ :=
  (run.outcomes t.full h.config.calibrationSamples).run t.ready

def targetedRuns : List Outcome × World σ :=
  (run.outcomes t.targeted h.config.calibrationSamples).run (t.fullRuns run).2

def coldRuns : List Outcome × World σ :=
  (run.outcomes t.cold h.config.calibrationSamples).run (t.targetedRuns run).2

/-- The times of the samples of a mode that came to an end by themselves. -/
def times : Mode → List Float
  | .full => exitTimes (t.fullRuns run).1
  | .targeted => exitTimes (t.targetedRuns run).1
  | .cold => exitTimes (t.coldRuns run).1
  | .fuzz => []

/-- The first mode without such a sample. -/
def missing? : Option Mode := [Mode.full, .targeted, .cold].find? fun mode => (t.times run mode).isEmpty

theorem run_measure :
    (h.measure run scratch).run.run w = (h.sampling run t.full t.targeted t.cold).run.run t.ready := by
  have hFull := gives_ofCommand_iff.mpr (And.intro t.built_full (Eq.refl t.ready))
  have hTargeted := gives_ofCommand_iff.mpr (And.intro t.built_targeted (Eq.refl t.ready))
  have hCold := gives_ofCommand_iff.mpr (And.intro t.built_cold (Eq.refl t.ready))
  exact (t.written.run_bind _).trans ((hFull.run_bind _).trans ((hTargeted.run_bind _).trans
    (hCold.run_bind _)))

theorem fails_of_missing {mode : Mode} (hMissing : t.missing? run = some mode) :
    ∃ w', Fails (h.measure run scratch) w (.calibration mode) w' := by
  suffices hRest : ∃ w',
      Fails (h.sampling run t.full t.targeted t.cold) t.ready (.calibration mode) w' by
    obtain ⟨w', hFails⟩ := hRest
    exact ⟨w', (t.run_measure run).trans hFails⟩
  -- The modes are searched in the order in which their samples are taken.
  rw [missing?, List.find?_cons] at hMissing
  split at hMissing
  · rename_i hFull
    cases hMissing
    exact ⟨_, (fails_median (List.isEmpty_iff.mp hFull)).bind _⟩
  · rename_i hFull
    obtain ⟨x, hx⟩ := Summary.exists_middle hFull
    rw [List.find?_cons] at hMissing
    split at hMissing
    · rename_i hTargeted
      cases hMissing
      exact ⟨_, .gives_bind (gives_median hx) ((fails_median (List.isEmpty_iff.mp hTargeted)).bind _)⟩
    · rename_i hTargeted
      obtain ⟨y, hy⟩ := Summary.exists_middle hTargeted
      rw [List.find?_cons] at hMissing
      split at hMissing
      · rename_i hCold
        cases hMissing
        exact ⟨_, .gives_bind (gives_median hx) (.gives_bind (gives_median hy)
          ((fails_median (List.isEmpty_iff.mp hCold)).bind _))⟩
      · cases hMissing

theorem run_measure_of_none (hNone : t.missing? run = none) :
    ∃ overhead : Overhead,
      (∀ m ∈ [(Mode.full, overhead.full), (.targeted, overhead.targeted), (.cold, overhead.cold)],
        Summary.middle? ((t.times run m.1).mergeSort floatLe) = some m.2) ∧
      (h.measure run scratch).run.run w =
        (ofStore (overhead.save (h.config.logPath overheadFile)) >>= fun _ => pure overhead :
          HarnessAction σ Overhead).run.run (t.coldRuns run).2 := by
  have hTimes : ∀ mode ∈ [Mode.full, .targeted, .cold], (t.times run mode).isEmpty = false := by
    simpa [missing?] using hNone
  obtain ⟨x, hx⟩ := Summary.exists_middle (hTimes .full (by simp))
  obtain ⟨y, hy⟩ := Summary.exists_middle (hTimes .targeted (by simp))
  obtain ⟨z, hz⟩ := Summary.exists_middle (hTimes .cold (by simp))
  refine ⟨⟨x, y, z, h.config.calibrationSamples, h.now⟩, by simp [hx, hy, hz], ?_⟩
  rw [t.run_measure]
  exact ((gives_median hx).run_bind _).trans (((gives_median hy).run_bind _).trans
    ((gives_median hz).run_bind _))

theorem nonempty_of_gives {o : Overhead} (hGives : Gives (h.measure run scratch) w o w') :
    Nonempty (h.Trial scratch w) := by
  rw [measure] at hGives
  simp only [Gives.bind_iff, gives_files_iff, gives_ofCommand_iff] at hGives
  obtain ⟨_, ready, hWritten, _, _, ⟨rfl, rfl⟩, full, _, ⟨hFull, rfl⟩, targeted, _, ⟨hTargeted, rfl⟩,
    cold, _, ⟨hCold, rfl⟩, -⟩ := hGives
  exact ⟨ready, full, targeted, cold, hWritten, hFull, hTargeted, hCold⟩

theorem missing?_of_gives {o : Overhead} (hGives : Gives (h.measure run scratch) w o w') :
    t.missing? run = none := by
  cases hMissing : t.missing? run with
  | none => rfl
  | some mode =>
    obtain ⟨_, hFails⟩ := t.fails_of_missing run hMissing
    exact absurd hGives hFails.not_gives

theorem gives_or_store_fails (hNone : t.missing? run = none) :
    (∃ o w', Gives (h.measure run scratch) w o w') ∨
      ∃ cause w', Fails (h.measure run scratch) w (.store cause) w' := by
  obtain ⟨overhead, -, hRun⟩ := t.run_measure_of_none run hNone
  simp only [Gives, Fails, hRun]
  rcases hSave : (ofStore (overhead.save (h.config.logPath overheadFile)) : HarnessAction σ Unit).run.run
    (t.coldRuns run).2 with ⟨e | _, w'⟩
  · obtain ⟨cause, rfl, -⟩ := fails_ofStore hSave
    exact .inr ⟨cause, w', Fails.bind hSave _⟩
  · exact .inl ⟨overhead, w', Gives.run_bind hSave _⟩

/-- The overhead can only fail to be stored where no overhead has been stored before. -/
theorem unread_of_fails {e : HarnessError} (hNone : t.missing? run = none)
    (hFails : Fails (h.measure run scratch) w e w') (held : Bytes) :
    w'.files.read (h.config.logPath overheadFile) ≠ .ok held := by
  obtain ⟨overhead, -, hRun⟩ := t.run_measure_of_none run hNone
  rw [Fails, hRun] at hFails
  rcases Fails.of_bind hFails with hSave | ⟨_, _, -, hPure⟩
  · obtain ⟨cause, -, hSave⟩ := fails_ofStore hSave
    exact (StoreAction.carries_perform.unread_of_fails plainName_overheadFile hSave).2 held
  · cases hPure

theorem fails_calibration_iff {mode : Mode} :
    (∃ w', Fails (h.measure run scratch) w (.calibration mode) w') ↔ t.missing? run = some mode := by
  refine ⟨fun hFails => ?_, t.fails_of_missing run⟩
  obtain ⟨w', hFails⟩ := hFails
  cases hMissing : t.missing? run with
  | some other =>
    obtain ⟨w'', hOther⟩ := t.fails_of_missing run hMissing
    rw [Fails, hFails] at hOther
    cases hOther
    rfl
  | none =>
    rcases t.gives_or_store_fails run hMissing with ⟨o, w'', hGives⟩ | ⟨cause, w'', hStore⟩
    · exact absurd hGives hFails.not_gives
    · rw [Fails, hFails] at hStore
      cases hStore

theorem middle_of_gives {o : Overhead} (hGives : Gives (h.measure run scratch) w o w') :
    ∀ m ∈ [(Mode.full, o.full), (.targeted, o.targeted), (.cold, o.cold)],
      Summary.middle? ((t.times run m.1).mergeSort floatLe) = some m.2 := by
  obtain ⟨overhead, hMiddle, hRun⟩ := t.run_measure_of_none run (t.missing?_of_gives run hGives)
  rw [Gives, hRun] at hGives
  obtain ⟨_, _, -, hPure⟩ := Gives.bind_iff.mp hGives
  obtain ⟨rfl, -⟩ := Gives.pure_iff.mp hPure
  exact hMiddle

end Trial

/-! ## The scratch directory -/

section Scratch

variable {start : Files} {dir name : Location} {reached : Place} (hFresh : start.Fresh dir name reached)

include hFresh

theorem confined_writeScratch {paths : List Location}
    (hPaths : ∀ path ∈ paths, ∃ file, Files.PlainName file ∧ path = join (join dir name) file) :
    Within (fun w w' =>
        start.Confined dir name reached w.files → start.Confined dir name reached w'.files)
      (writeScratch paths : HarnessAction σ Unit) := by
  induction paths with
  | nil => exact Within.pure (fun _ hConfined => hConfined) _
  | cons path paths ih =>
    obtain ⟨⟨file, hFile, rfl⟩, hRest⟩ := List.forall_mem_cons.mp hPaths
    refine Within.bind (fun _ _ _ h h' hConfined => h' (h hConfined))
      (Within.bind (fun _ _ _ h h' hConfined => h' (h hConfined)) ?_ fun _ => ?_) fun _ => ih hRest
    · rw [Files.directoryOf_join hFresh.plain hFile]
      refine Within.get_bind fun w hConfined => ?_
      have hMade := hFresh.confined_makeDirectories hConfined
      rcases hRun : w.files.makeDirectories (join dir name) with ⟨fs, _ | e⟩ <;> rw [hRun] at hMade <;>
        exact hMade
    · refine Within.get_bind fun w hConfined => ?_
      split
      · rename_i hWrite
        exact hFresh.confined_write hFile hConfined hWrite
      · exact hConfined

end Scratch

/-! ## What stays stored -/

/-- The stored overhead, as it can be read when the scratch directory is gone. -/
def storedOverhead (h : Harness) (scratch : Location) (fs : Files) : Option Bytes :=
  ((fs.removeAll scratch).read (h.config.logPath overheadFile)).toOption

/-- What is run for a calibration leaves the stored overhead alone, and files to themselves. No run takes
longer than a duration can be. -/
structure Respects (h : Harness) (scratch : Location) (run : Runner σ) : Prop where
  sound : ∀ command w, w.files.Sound → ((run command).run w).2.files.Sound
  stored : ∀ command w, w.files.Sound →
    h.storedOverhead scratch ((run command).run w).2.files = h.storedOverhead scratch w.files
  elapsed : ∀ command w, ((run command).run w).1.elapsed.nanos ≤ Duration.longest.nanos

/-- Sound files are still so, with the same overhead. -/
def Keeps (h : Harness) (scratch : Location) (w w' : World σ) : Prop :=
  w.files.Sound →
    w'.files.Sound ∧ h.storedOverhead scratch w'.files = h.storedOverhead scratch w.files

namespace Keeps

theorem refl (w : World σ) : h.Keeps scratch w w := fun hSound => ⟨hSound, rfl⟩

theorem trans (u v w : World σ) (hFirst : h.Keeps scratch u v) (hSecond : h.Keeps scratch v w) :
    h.Keeps scratch u w := by
  intro hSound
  obtain ⟨hSound', hSame⟩ := hFirst hSound
  obtain ⟨hSound'', hSame'⟩ := hSecond hSound'
  exact ⟨hSound'', hSame'.trans hSame⟩

theorem of_readOnly {α : Type} {x : HarnessAction σ α} (hx : ReadOnly x) :
    Within (h.Keeps scratch) x := by
  intro w
  rw [hx w]
  exact refl w

theorem median (hRun : h.Respects scratch run) (n : Nat) (mode : Mode) (command : Command) :
    Within (h.Keeps scratch) (median run n mode command) := by
  intro w
  have hOutcomes : h.Keeps scratch w ((run.outcomes command n).run w).2 :=
    run.outcomes_induct command refl trans
      (fun w hSound => ⟨hRun.sound command w hSound, hRun.stored command w hSound⟩) n w
  cases hMiddle : Summary.middle? ((exitTimes ((run.outcomes command n).run w).1).mergeSort floatLe) with
  | some x =>
    rw [gives_median hMiddle]
    exact hOutcomes
  | none =>
    rw [fails_median (Summary.middle?_eq_none_iff.mp hMiddle)]
    exact hOutcomes

theorem of_fails_save {o : Overhead} {e : HarnessError}
    (hFails : Fails (ofStore (o.save (h.config.logPath overheadFile)) : HarnessAction σ Unit) w e w') :
    h.Keeps scratch w w' := by
  intro hSound
  obtain ⟨cause, -, hSave⟩ := fails_ofStore hFails
  obtain ⟨hGrows, hUnread⟩ := StoreAction.carries_perform.unread_of_fails plainName_overheadFile hSave
  have hSound' : w'.files.Sound := (StoreAction.carries_perform.sounds _ _).of_fails hSave hSound
  -- What can be read without the scratch directory, after as before, is still there afterwards.
  refine ⟨hSound', Files.toOption_read_congr fun bytes => iff_of_false ?_ ?_⟩
  · intro hRead
    have hThere := Files.read_of_spares (hSound'.removeAll scratch)
      (fun _ => (Files.grows_removeAll w'.files scratch).spares) hRead
    exact hUnread bytes hThere
  · intro hRead
    have hBefore := (Files.grows_removeAll w.files scratch).trans hGrows
    exact hUnread bytes (Files.read_of_spares (hSound.removeAll scratch) (fun _ => hBefore.spares) hRead)

end Keeps

theorem Keeps.of_fails_sampling (hRun : h.Respects scratch run) (full targeted cold : Command) :
    FailsWithin (h.Keeps scratch) (h.sampling run full targeted cold) := by
  refine .bind Keeps.trans (Keeps.median hRun _ _ _) fun x => .bind Keeps.trans (Keeps.median hRun _ _ _)
    fun y => .bind Keeps.trans (Keeps.median hRun _ _ _) fun z => ?_
  intro w e w' hFails
  rcases hFails.of_bind with hSave | ⟨_, w₁, -, hPure⟩
  · exact Keeps.of_fails_save hSave
  · cases hPure

/-! ## Calibrations -/

/-- A calibration comes to what its measurement comes to; afterwards the scratch directory is gone. -/
theorem run_calibrate_iff {result : Except HarnessError Overhead} :
    (h.calibrate run scratch).run.run w = (result, w') ↔
      ∃ w₁, (h.measure run scratch).run.run w = (result, w₁) ∧
        w' = { w₁ with files := w₁.files.removeAll scratch } := by
  rw [calibrate, run_tryFinally]
  rcases (h.measure run scratch).run.run w with ⟨measured, w₁⟩
  constructor
  · intro hRun
    cases hRun
    exact ⟨w₁, rfl, rfl⟩
  · rintro ⟨_, hMeasured, rfl⟩
    cases hMeasured
    rfl

theorem Respects.elapsed_outcomes (hRun : h.Respects scratch run) (command : Command) (n : Nat)
    (w : World σ) : ∀ o ∈ ((run.outcomes command n).run w).1, o.elapsed.nanos ≤ Duration.longest.nanos :=
  run.forall_outcomes command (P := fun o => o.elapsed.nanos ≤ Duration.longest.nanos)
    (hRun.elapsed command) n w

theorem Trial.isFinite_times (t : h.Trial scratch w) (hRun : h.Respects scratch run) (mode : Mode) :
    ∀ x ∈ t.times run mode, x.isFinite = true := by
  intro x hx
  cases mode with
  | full => exact isFinite_of_mem_exitTimes hx (hRun.elapsed_outcomes t.full _ _)
  | targeted => exact isFinite_of_mem_exitTimes hx (hRun.elapsed_outcomes t.targeted _ _)
  | cold => exact isFinite_of_mem_exitTimes hx (hRun.elapsed_outcomes t.cold _ _)
  | fuzz => cases hx

section Fresh

variable {dir name : Location} {reached : Place} (hFresh : w.files.Fresh dir name reached)
  (hRun : h.Respects (join dir name) run)

include hFresh hRun

theorem storedOverhead_of_fails {e : HarnessError}
    (hFails : Fails (h.measure run (join dir name)) w e w') :
    w'.files.Sound ∧ h.storedOverhead (join dir name) w'.files =
      (w.files.read (h.config.logPath overheadFile)).toOption := by
  have hPaths : ∀ path ∈ scratchPaths (join dir name),
      ∃ file, Files.PlainName file ∧ path = join (join dir name) file := by
    simp only [scratchPaths, List.forall_mem_cons]
    exact ⟨⟨_, ⟨by decide, by decide, by decide, by decide⟩, rfl⟩,
      ⟨_, ⟨by decide, by decide, by decide, by decide⟩, rfl⟩,
      ⟨_, ⟨by decide, by decide, by decide, by decide⟩, rfl⟩, by simp⟩
  have hWrites := confined_writeScratch (σ := σ) hFresh hPaths
  rcases hFails.of_bind with hWrite | ⟨_, ready, hWrite, hRest⟩
  · have hConfined := hWrites.of_fails hWrite hFresh.confined
    exact ⟨hConfined.sound, hFresh.toOption_read hConfined _⟩
  · -- So far only the scratch directory has changed. The overhead is stored last, so that no step fails
    -- after it.
    have hConfined := hWrites.of_gives hWrite hFresh.confined
    have hCommand : ∀ x : Except CommandError Command,
        Within (h.Keeps (join dir name)) (ofCommand x : HarnessAction σ Command) := by
      intro x
      refine Keeps.of_readOnly ?_
      cases x with
      | ok a => exact .pure a
      | error e => exact .throw _
    have hKeeps : h.Keeps (join dir name) ready w' := by
      refine (?_ : FailsWithin (h.Keeps (join dir name)) _) ready e w' hRest
      refine .bind Keeps.trans (Keeps.of_readOnly (.get_bind fun _ => .pure _)) fun fs =>
        .bind Keeps.trans (hCommand _) fun full => .bind Keeps.trans (hCommand _) fun targeted =>
        .bind Keeps.trans (hCommand _) fun cold => Keeps.of_fails_sampling hRun full targeted cold
    obtain ⟨hSound, hSame⟩ := hKeeps hConfined.sound
    exact ⟨hSound, hSame.trans (hFresh.toOption_read hConfined _)⟩

/-- Where an overhead has been stored before, a calibration with a sample of each mode stores its own. -/
theorem exists_gives_calibrate_of_stored (t : h.Trial (join dir name) w) (hNone : t.missing? run = none)
    {held : Bytes} (hStored : w.files.read (h.config.logPath overheadFile) = .ok held) :
    ∃ o w', Gives (h.calibrate run (join dir name)) w o w' := by
  rcases t.gives_or_store_fails run hNone with ⟨o, w₁, hMeasure⟩ | ⟨cause, w₁, hMeasure⟩
  · exact ⟨o, _, run_calibrate_iff.mpr ⟨w₁, hMeasure, rfl⟩⟩
  · obtain ⟨hSound, hSame⟩ := storedOverhead_of_fails hFresh hRun hMeasure
    cases hRead : (w₁.files.removeAll (join dir name)).read (h.config.logPath overheadFile) with
    | error e =>
      rw [storedOverhead, hRead, hStored] at hSame
      cases hSame
    | ok bytes =>
      have hThere := Files.read_of_spares (hSound.removeAll (join dir name))
        (fun _ => (Files.grows_removeAll w₁.files (join dir name)).spares) hRead
      exact absurd hThere (t.unread_of_fails run hNone hMeasure bytes)

end Fresh

/-- With a scratch directory that is new, a calibration that fails leaves the stored overhead as it was.
When its commands can be built, it complains about a mode exactly if that is the first, in the order
full, targeted, cold, in which no sample came to an end by itself; if there is no such mode, it can only
fail to store the result. What it results in are the medians that summaries have of the times of those
samples, for each mode and in whatever order the times are. -/
theorem calibrate_all_or_nothing (h : Harness) (run : Runner σ) (w : World σ) {dir name : Location}
    {reached : Place} (hFresh : w.files.Fresh dir name reached) (hRun : h.Respects (join dir name) run) :
    (∀ e w', Fails (h.calibrate run (join dir name)) w e w' →
      (w'.files.read (h.config.logPath overheadFile)).toOption =
        (w.files.read (h.config.logPath overheadFile)).toOption) ∧
    (∀ t : h.Trial (join dir name) w,
      (∀ mode, (∃ w', Fails (h.calibrate run (join dir name)) w (.calibration mode) w') ↔
        t.missing? run = some mode) ∧
      (t.missing? run = none → (∃ o w', Gives (h.calibrate run (join dir name)) w o w') ∨
        ∃ cause w', Fails (h.calibrate run (join dir name)) w (.store cause) w')) ∧
    ∀ o w', Gives (h.calibrate run (join dir name)) w o w' → ∃ t : h.Trial (join dir name) w,
      ∀ m ∈ [(Mode.full, o.full), (.targeted, o.targeted), (.cold, o.cold)],
        ∀ times, times.Perm (t.times run m.1) → (Summary.of? times).map Summary.median = some m.2 := by
  refine ⟨?_, fun t => ⟨fun mode => ?_, fun hNone => ?_⟩, ?_⟩
  · intro e w' hFails
    obtain ⟨w₁, hMeasure, rfl⟩ := run_calibrate_iff.mp hFails
    exact (storedOverhead_of_fails hFresh hRun hMeasure).2
  · rw [← t.fails_calibration_iff]
    constructor
    · rintro ⟨w', hFails⟩
      obtain ⟨w₁, hMeasure, -⟩ := run_calibrate_iff.mp hFails
      exact ⟨w₁, hMeasure⟩
    · rintro ⟨w₁, hMeasure⟩
      exact ⟨_, run_calibrate_iff.mpr ⟨w₁, hMeasure, rfl⟩⟩
  · rcases t.gives_or_store_fails run hNone with ⟨o, w₁, hMeasure⟩ | ⟨cause, w₁, hMeasure⟩
    · exact .inl ⟨o, _, run_calibrate_iff.mpr ⟨w₁, hMeasure, rfl⟩⟩
    · exact .inr ⟨cause, _, run_calibrate_iff.mpr ⟨w₁, hMeasure, rfl⟩⟩
  · intro o w' hGives
    obtain ⟨w₁, hMeasure, -⟩ := run_calibrate_iff.mp hGives
    obtain ⟨t⟩ := Trial.nonempty_of_gives run hMeasure
    refine ⟨t, fun m hm times hPerm => ?_⟩
    rw [← Summary.middle?_mergeSort (t.isFinite_times hRun m.1) hPerm]
    exact t.middle_of_gives run hMeasure m hm

/-! ## Calibrations with stuck runs -/

/-- The runs with these numbers run into their limit, the others end with their number as code. -/
def tiring (stuck : List Nat) : Runner Nat := fun _ => do
  let w ← get
  set { w with engine := w.engine + 1 }
  let exit := if w.engine ∈ stuck then .timedOut else .exited w.engine
  return ⟨exit, .ofMillis (100 * (w.engine % 7)), "", ""⟩

def calibrated : World Nat :=
  ⟨⟨[(["tmp"], .directory), (["experiments"], .directory), (["experiments", "overhead.json"], .file 0)],
    [[7]]⟩, 0⟩

theorem fresh_calibrated : calibrated.files.Fresh "tmp" "trial" ["tmp"] where
  sound := .of_names (by decide) (by decide)
  leads := Files.leads_of_find rfl
  plain := ⟨by decide, by decide, by decide, by decide⟩
  vacant := by
    rintro q ⟨rest, rfl⟩
    simp [calibrated, Files.node?, List.lookup_cons]

theorem respects_tiring (h : Harness) (scratch : Location) (stuck : List Nat) :
    h.Respects scratch (tiring stuck) where
  sound _ _ hSound := hSound
  stored _ _ _ := rfl
  elapsed _ w := by
    change 100 * (w.engine % 7) * 1000000 ≤ 0x10000000000000000 * 1000000000 - 1
    omega

def seconds (millis : List Nat) : List Float := millis.map fun ms => (Duration.ofMillis ms).toSeconds

/-- The milliseconds that the next runs take, without those that get stuck. -/
def lasting (stuck : List Nat) (start n : Nat) : List Nat :=
  ((List.range' start n).filter (· ∉ stuck)).map fun k => 100 * (k % 7)

theorem exitTimes_tiring (stuck : List Nat) (command : Command) (n : Nat) (w : World Nat) :
    exitTimes ((Runner.outcomes (tiring stuck) command n).run w).1 = seconds (lasting stuck w.engine n) ∧
      ((Runner.outcomes (tiring stuck) command n).run w).2.engine = w.engine + n := by
  induction n generalizing w with
  | zero => exact ⟨rfl, rfl⟩
  | succ n ih =>
    obtain ⟨hTimes, hEngine⟩ := ih { w with engine := w.engine + 1 }
    have hRun : (tiring stuck command).run w =
        (⟨if w.engine ∈ stuck then .timedOut else .exited w.engine, .ofMillis (100 * (w.engine % 7)),
          "", ""⟩, { w with engine := w.engine + 1 }) := rfl
    rw [Runner.run_outcomes_succ, hRun]
    refine ⟨?_, hEngine.trans (Nat.succ_add_eq_add_succ _ _)⟩
    rw [exitTimes, List.filterMap_cons, ← exitTimes, hTimes]
    by_cases hStuck : w.engine ∈ stuck <;>
      simp [Outcome.exitTime?, lasting, seconds, List.range'_succ, hStuck]

def readied : World Nat :=
  ((writeScratch (scratchPaths (join "tmp" "trial")) : HarnessAction Nat Unit).run.run calibrated).2

theorem exists_eq_ok {ε α : Type} {x : Except ε α} (h : x.isOk = true) : ∃ a, x = .ok a := by
  cases x with
  | error e => cases h
  | ok a => exact ⟨a, rfl⟩

theorem nonempty_trial_calibrated : Nonempty (bench.Trial (join "tmp" "trial") calibrated) := by
  obtain ⟨hOk, hBuilt⟩ :
      ((writeScratch (scratchPaths (join "tmp" "trial")) :
        HarnessAction Nat Unit).run.run calibrated).1.isOk = true ∧
      ∀ r ∈ [Request.full (join (join "tmp" "trial") "empty.jse.js") false,
        .targeted (join (join "tmp" "trial") "cache") (join (join "tmp" "trial") "empty.diff"),
        .cold (join (join "tmp" "trial") "empty.jse.js")],
        (r.command bench.config readied.files).isOk = true := by
    decide +kernel
  simp only [List.forall_mem_cons] at hBuilt
  obtain ⟨hFull, hTargeted, hCold, -⟩ := hBuilt
  obtain ⟨_, hWritten⟩ := Gives.exists_of_isOk hOk
  obtain ⟨full, hFull⟩ := exists_eq_ok hFull
  obtain ⟨targeted, hTargeted⟩ := exists_eq_ok hTargeted
  obtain ⟨cold, hCold⟩ := exists_eq_ok hCold
  exact ⟨readied, full, targeted, cold, hWritten, hFull, hTargeted, hCold⟩

namespace Trial

variable (t : bench.Trial (join "tmp" "trial") calibrated)

theorem engine_ready : t.ready.engine = 0 := by
  have hReady : readied = t.ready := congrArg Prod.snd t.written
  rw [← hReady]
  decide +kernel

theorem times_tiring (stuck : List Nat) :
    t.times (tiring stuck) .full = seconds (lasting stuck 0 3) ∧
      t.times (tiring stuck) .targeted = seconds (lasting stuck 3 3) ∧
      t.times (tiring stuck) .cold = seconds (lasting stuck 6 3) := by
  obtain ⟨hFull, hAfterFull⟩ := exitTimes_tiring stuck t.full 3 t.ready
  obtain ⟨hTargeted, hAfterTargeted⟩ := exitTimes_tiring stuck t.targeted 3 (t.fullRuns (tiring stuck)).2
  obtain ⟨hCold, -⟩ := exitTimes_tiring stuck t.cold 3 (t.targetedRuns (tiring stuck)).2
  rw [t.engine_ready] at hFull hAfterFull
  have hSecond : (t.fullRuns (tiring stuck)).2.engine = 3 := hAfterFull
  rw [hSecond] at hTargeted hAfterTargeted
  have hThird : (t.targetedRuns (tiring stuck)).2.engine = 6 := hAfterTargeted
  rw [hThird] at hCold
  exact ⟨hFull, hTargeted, hCold⟩

theorem missing?_tiring (stuck : List Nat) :
    t.missing? (tiring stuck) = ([(Mode.full, 0), (.targeted, 3), (.cold, 6)].find? fun m =>
      (lasting stuck m.2 3).isEmpty).map Prod.fst := by
  obtain ⟨hFull, hTargeted, hCold⟩ := t.times_tiring stuck
  have hEmpty : ∀ millis, (seconds millis).isEmpty = millis.isEmpty := fun _ => List.isEmpty_map
  simp only [missing?, List.find?_cons, hFull, hTargeted, hCold, hEmpty, List.find?_nil]
  cases (lasting stuck 0 3).isEmpty with
  | true => rfl
  | false => cases (lasting stuck 3 3).isEmpty with
    | true => rfl
    | false => cases (lasting stuck 6 3).isEmpty <;> rfl

end Trial

/-- All targeted runs get stuck: the calibration fails, and what was stored is still there. Only one of
them does: the overhead of its mode is the median of the other two. -/
theorem calibrations_with_stuck_runs :
    calibrated.files.Fresh "tmp" "trial" ["tmp"] ∧
      (∀ stuck, bench.Respects (join "tmp" "trial") (tiring stuck)) ∧
      (∃ w', Fails (bench.calibrate (tiring [3, 4, 5]) (join "tmp" "trial")) calibrated
          (.calibration .targeted) w' ∧
        (w'.files.read (bench.config.logPath overheadFile)).toOption = some [7]) ∧
      ∃ o w', Gives (bench.calibrate (tiring [4]) (join "tmp" "trial")) calibrated o w' ∧
        ∀ m ∈ [([0, 100, 200], o.full), ([300, 500], o.targeted), ([0, 100, 600], o.cold)],
          (Summary.of? (seconds m.1)).map Summary.median = some m.2 := by
  have hRun := respects_tiring bench (join "tmp" "trial")
  have hBefore : calibrated.files.read (bench.config.logPath overheadFile) = .ok [7] := rfl
  obtain ⟨t⟩ := nonempty_trial_calibrated
  refine ⟨fresh_calibrated, hRun, ?_, ?_⟩
  · obtain ⟨hUnchanged, hModes, -⟩ :=
      calibrate_all_or_nothing bench _ calibrated fresh_calibrated (hRun [3, 4, 5])
    obtain ⟨w', hFails⟩ := ((hModes t).1 .targeted).mpr (t.missing?_tiring [3, 4, 5])
    refine ⟨w', hFails, (hUnchanged _ w' hFails).trans ?_⟩
    rw [hBefore]
    rfl
  · obtain ⟨-, -, hMedians⟩ := calibrate_all_or_nothing bench _ calibrated fresh_calibrated (hRun [4])
    obtain ⟨o, w', hGives⟩ :=
      exists_gives_calibrate_of_stored fresh_calibrated (hRun [4]) t (t.missing?_tiring [4]) hBefore
    obtain ⟨t', hTimes⟩ := hMedians o w' hGives
    obtain ⟨hFull, hTargeted, hCold⟩ := t'.times_tiring [4]
    simp only [List.forall_mem_cons, hFull, hTargeted, hCold] at hTimes
    obtain ⟨hFull, hTargeted, hCold, -⟩ := hTimes
    refine ⟨o, w', hGives, ?_⟩
    simp only [List.forall_mem_cons]
    refine ⟨hFull _ (.refl _), hTargeted _ (.refl _), hCold _ ?_, by simp⟩
    exact (List.perm_append_comm : ([0, 100] ++ [600] : List Nat).Perm ([600] ++ [0, 100])).map _

end Harness

end Reanalysis
