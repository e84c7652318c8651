import Reanalysis.Proofs.Harness.History

/-!
# Programs side by side

With several jobs the steps of different programs run side by side. Only one engine runs at a time,
and a full step has the engine to itself from the removal of the old state on until the new state is
kept. Changes are computed and stored states are looked up at any time.

A state that is looked up is then the program's own, or it is that of an unfinished run of another
program, which explores in a directory with the number of the first.
-/

namespace Reanalysis

open Files (Location)
open Command (stateFlag)

namespace Harness

open HarnessAction CacheStore

/-! ## Scenes -/

structure FullRun where
  program : ProgramId
  /-- Of the program text before the engine was free. -/
  base : Digest
  launch : Files

inductive Holder where
  | nobody
  | exploring (run : FullRun)
  /-- The engine has ended, and these of its directories are still to be dealt with. -/
  | settling (run : FullRun) (ok : Bool) (left : List Nat)
  /-- A run that is not asked for its state. -/
  | other (launch : Files)

def Holder.run? : Holder → Option FullRun
  | .exploring run | .settling run _ _ => some run
  | _ => none

structure Scene where
  files : Files
  holder : Holder
  /-- What the last full runs have left. -/
  ledger : Ledger
  /-- The programs whose full run is over. -/
  done : List ProgramId

/-- What one of the programs does next. A full step enters, finishes, clears all states that its run
has left but the newest one, and adopts that, or registers or drops what there is. -/
inductive Moves (h : Harness) (root : Place) : Scene → Scene → Prop
  | enter {files files' : Files} {ledger : Ledger} {done : List ProgramId} {found : Bool}
      (id : ProgramId) (base : Digest) (hDiscard : Gives (h.store.discard id) files found files') :
      Moves h root ⟨files, .nobody, ledger, done⟩
        ⟨files', .exploring ⟨id, base, files'⟩, ledger.without id, done⟩
  | work {files files' : Files} {run : FullRun} {ledger : Ledger} {done : List ProgramId}
      (hWorks : h.store.Works root run.launch files files') :
      Moves h root ⟨files, .exploring run, ledger, done⟩ ⟨files', .exploring run, ledger, done⟩
  | finish {files : Files} {run : FullRun} {ledger : Ledger} {done : List ProgramId} (ok : Bool) :
      Moves h root ⟨files, .exploring run, ledger, done⟩
        ⟨files, .settling run ok (h.store.producedSince files (h.store.engineDirs run.launch)),
          ledger, done⟩
  | clear {files files' : Files} {run : FullRun} {ok : Bool} {n : Nat} {left : List Nat}
      {ledger : Ledger} {done : List ProgramId} (hMore : ok = true → left ≠ [])
      (hDiscard : Gives (h.store.discardProduced n) files () files') :
      Moves h root ⟨files, .settling run ok (n :: left), ledger, done⟩
        ⟨files', .settling run ok left, ledger, done⟩
  | adopt {files files' : Files} {run : FullRun} {n : Nat} {ledger : Ledger} {done : List ProgramId}
      {now : Instant} {state : Bytes} {made : Option CacheArtifact} (hTime : now.Representable)
      (hState : files.read (h.store.engineBlob n) = .ok state)
      (hAdopt : Gives ((h.atTime now).store.adopt run.program n (some run.base)) files made files') :
      Moves h root ⟨files, .settling run true [n], ledger, done⟩
        ⟨files', .nobody, ledger.record run.program state run.base, run.program :: done⟩
  | register {files files' : Files} {run : FullRun} {ledger : Ledger} {done : List ProgramId}
      {now : Instant} {made : Option CacheArtifact}
      (hRegister : Gives ((h.atTime now).store.register run.program (some run.base)) files made
        files') :
      Moves h root ⟨files, .settling run true [], ledger, done⟩
        ⟨files', .nobody, ledger, run.program :: done⟩
  | drop {files files' : Files} {run : FullRun} {ledger : Ledger} {done : List ProgramId}
      {found : Bool} (hDiscard : Gives (h.store.discard run.program) files found files') :
      Moves h root ⟨files, .settling run false [], ledger, done⟩
        ⟨files', .nobody, ledger, run.program :: done⟩
  | launch {files : Files} {ledger : Ledger} {done : List ProgramId} :
      Moves h root ⟨files, .nobody, ledger, done⟩ ⟨files, .other files, ledger, done⟩
  | goOn {files files' launch : Files} {ledger : Ledger} {done : List ProgramId}
      (hWorks : h.store.Works root launch files files')
      (hNone : ∀ n number, h.store.IsRoom launch n →
        files'.node? (h.store.filePlace root n blobName) ≠ some (.file number)) :
      Moves h root ⟨files, .other launch, ledger, done⟩ ⟨files', .other launch, ledger, done⟩
  | stop {files launch : Files} {ledger : Ledger} {done : List ProgramId} :
      Moves h root ⟨files, .other launch, ledger, done⟩ ⟨files, .nobody, ledger, done⟩
  | elsewhere {files files' : Files} {holder : Holder} {ledger : Ledger} {done : List ProgramId}
      (hAlters : Files.Alters (fun q => ¬ h.store.Entry root q) files files')
      (hTidy : h.store.Tidy root files') :
      Moves h root ⟨files, holder, ledger, done⟩ ⟨files', holder, ledger, done⟩

/-- Whatever was in the slots before. -/
inductive Arises (h : Harness) (root : Place) : Scene → Prop
  | start {files : Files} (hTidy : h.store.Tidy root files) :
      Arises h root ⟨files, .nobody, h.store.found root files, []⟩
  | move {scene scene' : Scene} (hPast : Arises h root scene) (hMove : h.Moves root scene scene') :
      Arises h root scene'

/-! ## What holds in every scene -/

variable {h : Harness} {root : Place}

/-- The directories whose states are the engine's business. -/
def Holder.loose (s : CacheStore) : Holder → Nat → Prop
  | .exploring run => s.IsRoom run.launch
  | .settling _ _ left => (· ∈ left)
  | _ => noLoose

/-- The program of a full run has no kept state, and nobody's kept state is in the engine's rooms. -/
def Holder.Fits (s : CacheStore) (ledger : Ledger) : Holder → Prop
  | .nobody => True
  | .exploring run => s.Nameable run.program ∧ ledger.without run.program = ledger ∧
    s.Knows ledger run.launch
  | .settling run _ left => s.Nameable run.program ∧ ledger.without run.program = ledger ∧
    ∀ n ∈ left, s.Reaches n blobName ∧ s.IsRoom run.launch n
  | .other launch => s.Knows ledger launch

structure Scene.Sound (h : Harness) (root : Place) (scene : Scene) : Prop where
  accounted : h.store.Accounted root scene.ledger (scene.holder.loose h.store) scene.files
  fits : scene.holder.Fits h.store scene.ledger
  fresh : ∀ id ∈ scene.done, ¬ scene.ledger.past id.number

theorem Holder.Fits.run_of_loose {s : CacheStore} {ledger : Ledger} {holder : Holder} {n : Nat}
    (hFits : holder.Fits s ledger) (hLoose : holder.loose s n) :
    ∃ run, holder.run? = some run ∧ s.IsRoom run.launch n := by
  cases holder with
  | nobody => exact hLoose.elim
  | exploring run => exact ⟨run, rfl, hLoose⟩
  | settling run ok left =>
    obtain ⟨-, -, hLeft⟩ := hFits
    exact ⟨run, rfl, (hLeft n hLoose).2⟩
  | other launch => exact hLoose.elim

theorem Moves.sound {scene scene' : Scene} (hMove : h.Moves root scene scene')
    (hSound : scene.Sound h root) : scene'.Sound h root := by
  obtain ⟨hAcc, hFits, hFresh⟩ := hSound
  cases hMove with
  | enter id base hDiscard =>
    obtain ⟨hName, hAcc', -⟩ := hAcc.discard hDiscard
    have hKnown := fun n => hAcc'.mem_engineDirs_of_has (n := n)
    refine ⟨?_, ⟨hName, Ledger.without_without _ id, hKnown⟩, fun other hMem hFound => ?_⟩
    · exact hAcc'.work (.refl hAcc'.tidy) hKnown (fun _ => False.elim) (fun _ hRoom => hRoom)
        fun _ _ hRoom _ _ => hRoom
    · exact hFresh other hMem hFound.2
  | work hWorks =>
    refine ⟨?_, hFits, hFresh⟩
    exact hAcc.work hWorks hFits.2.2 (fun _ hRoom => hRoom) (fun _ hRoom => hRoom)
      fun _ _ hRoom _ _ => hRoom
  | finish ok =>
    obtain ⟨hName, hWithout, hKnown⟩ := hFits
    refine ⟨hAcc.ended hKnown, ⟨hName, hWithout, fun n hMem => ?_⟩, hFresh⟩
    obtain ⟨hBound, hNew, hReach, number, hFile⟩ := (mem_producedSince_iff hAcc.tidy).mp hMem
    refine ⟨hReach, (hAcc.blobs n number hReach hFile).resolve_right fun hHas => ?_⟩
    exact hNew (hKnown n hBound hHas)
  | clear hMore hDiscard =>
    obtain ⟨hName, hWithout, hLeft⟩ := hFits
    obtain ⟨hAcc', -⟩ := hAcc.discardProduced List.mem_cons_self (fun m => List.mem_cons_of_mem _)
      (fun m hm hNe => (List.mem_cons.mp hm).resolve_left hNe) hDiscard
    exact ⟨hAcc', ⟨hName, hWithout, fun m hm => hLeft m (List.mem_cons_of_mem _ hm)⟩, hFresh⟩
  | @adopt files files' run n ledger done now state made hTime hState hAdopt =>
    obtain ⟨hName, hWithout, hLeft⟩ := hFits
    have hReach := (hLeft n List.mem_cons_self).1
    obtain ⟨hHolds, hSize⟩ := hAcc.holds_of_read List.mem_cons_self hReach hState
    have hOnly : h.store.Accounted root (ledger.without run.program) (· = n) files := by
      rw [hWithout]
      simpa only [Holder.loose, List.mem_singleton] using hAcc
    have hAcc' := (hOnly.atTime now).adopt hName hTime hReach hHolds hSize hAdopt
    refine ⟨hAcc'.atTime h.now, trivial, List.forall_mem_cons.mpr ⟨fun hFound => hFound.1 rfl, ?_⟩⟩
    exact fun other hMem hFound => hFresh other hMem hFound.2
  | @register files files' run ledger done now made hRegister =>
    obtain ⟨hName, hWithout, -⟩ := hFits
    have hAcc' := noLoose_iff.mp hAcc
    rw [← hWithout] at hAcc'
    obtain rfl := (hAcc'.atTime now).register hName hRegister
    exact ⟨noLoose_iff.mp hAcc, trivial,
      List.forall_mem_cons.mpr ⟨Ledger.not_past_of_without hWithout, hFresh⟩⟩
  | drop hDiscard =>
    obtain ⟨-, hWithout, -⟩ := hFits
    obtain ⟨-, hAcc', -⟩ := (noLoose_iff.mp hAcc).discard hDiscard
    rw [hWithout] at hAcc'
    exact ⟨hAcc', trivial, List.forall_mem_cons.mpr ⟨Ledger.not_past_of_without hWithout, hFresh⟩⟩
  | launch => exact ⟨hAcc, fun n => hAcc.mem_engineDirs_of_has, hFresh⟩
  | goOn hWorks hNone =>
    refine ⟨?_, hFits, hFresh⟩
    exact hAcc.work hWorks hFits (fun _ => False.elim) (fun _ => False.elim)
      fun n number hRoom _ hFile => absurd hFile (hNone n number hRoom)
  | stop => exact ⟨hAcc, trivial, hFresh⟩
  | elsewhere hAlters hTidy => exact ⟨hAcc.quiet hAlters hTidy, hFits, hFresh⟩

theorem Arises.sound {scene : Scene} (hArises : h.Arises root scene) : scene.Sound h root := by
  induction hArises with
  | start hTidy =>
    exact ⟨.of_found hTidy (fun _ _ _ => id) fun _ => Iff.rfl, trivial, fun _ => nofun⟩
  | move _ hMove ih => exact hMove.sound ih

/-! ## One step at a time -/

section Steps

variable {fs fs' : Files} {ledger : Ledger} {done : List ProgramId} {id : ProgramId} {log : Log}
  {engine : Engine} {launches : List Launch} {report : StepReport} {now : Instant}

theorem Arises.discards {σ : Type} {w w' : World σ} {run : FullRun} {ok : Bool}
    {produced rest : List Nat} {u : PUnit} (hMore : ok = true → rest ≠ [])
    (hArises : h.Arises root ⟨w.files, .settling run ok (produced ++ rest), ledger, done⟩)
    (hRun : Gives (produced.forM fun n =>
      (ofStore (h.store.discardProduced n) : HarnessAction σ Unit)) w u w') :
    h.Arises root ⟨w'.files, .settling run ok rest, ledger, done⟩ := by
  induction produced generalizing w with
  | nil =>
    rw [Gives.forM_nil_iff] at hRun
    rw [← hRun]
    exact hArises
  | cons n produced ih =>
    simp only [Gives.forM_cons_iff, gives_ofStore_iff] at hRun
    obtain ⟨w₁, ⟨fs₁, hFirst, rfl⟩, hRest⟩ := hRun
    refine ih (hArises.move (.clear (fun hOk => ?_) hFirst)) hRest
    simp [hMore hOk]

theorem Arises.dropState {σ : Type} {w w' : World σ} {run : FullRun} {produced : List Nat}
    {u : Unit} (hArises : h.Arises root ⟨w.files, .settling run false produced, ledger, done⟩)
    (hRun : Gives (h.dropState run.program produced) w u w') :
    h.Arises root ⟨w'.files, .nobody, ledger, run.program :: done⟩ := by
  simp only [Harness.dropState, Gives.bind_iff, gives_ofStore_iff, Gives.pure_iff] at hRun
  obtain ⟨_, w₁, hDiscards, _, _, ⟨fs, hDiscard, rfl⟩, -, rfl⟩ := hRun
  rw [← List.append_nil produced] at hArises
  exact (hArises.discards (by simp) hDiscards).move (.drop hDiscard)

theorem Arises.keepState {σ : Type} {w w' : World σ} {run : FullRun} {produced : List Nat}
    {u : Unit} (hTime : now.Representable)
    (hArises : h.Arises root ⟨w.files, .settling run true produced, ledger, done⟩)
    (hOrder : produced.Pairwise (· < ·))
    (hStates : ∀ n ∈ produced, ∃ state, w.files.Holds (h.store.filePlace root n blobName) state)
    (hRun : Gives ((h.atTime now).keepState run.program run.base produced) w u w') :
    ∃ ledger', h.Arises root ⟨w'.files, .nobody, ledger', run.program :: done⟩ := by
  rw [Harness.keepState] at hRun
  cases hLast : produced.getLast? with
  | none =>
    have hNil := List.getLast?_eq_none_iff.mp hLast
    subst hNil
    simp only [List.getLast?_nil, Gives.bind_iff, gives_ofStore_iff, Gives.pure_iff] at hRun
    obtain ⟨_, _, ⟨fs, hRegister, rfl⟩, -, rfl⟩ := hRun
    exact ⟨ledger, hArises.move (.register hRegister)⟩
  | some n =>
    obtain ⟨front, rfl⟩ := List.getLast?_eq_some_iff.mp hLast
    simp only [hLast, List.dropLast_concat, Gives.bind_iff, gives_ofStore_iff, Gives.pure_iff] at hRun
    obtain ⟨_, w₁, hDiscards, _, _, ⟨fs, hAdopt, rfl⟩, -, rfl⟩ := hRun
    obtain ⟨hAcc, ⟨-, -, hLeft⟩, -⟩ := hArises.sound
    obtain ⟨fs₁, rfl, hAcc₁, hAlters, -⟩ := accounted_of_discards (h := h) hAcc hDiscards
    obtain ⟨state, hState⟩ := hStates n (by simp)
    have hArises₁ := hArises.discards (by simp) hDiscards
    have hState₁ := hAlters.held _ _ (newest_stays hOrder) hState
    have hRead := read_of_holds hAcc₁.tidy (hLeft n (by simp)).1 hState₁
    exact ⟨_, hArises₁.move (.adopt hTime hRead hAdopt)⟩

theorem Arises.fullStep (hTime : now.Representable)
    (hArises : h.Arises root ⟨fs, .nobody, ledger, done⟩) (hLog : h.store.Foreign root fs log.number)
    (hRun : Gives ((h.atTime now).fullStep engine.runner log id) ⟨fs, []⟩ report ⟨fs', launches⟩)
    (hEngine : ∀ l ∈ launches, h.store.Confined root l) :
    ∃ ledger' done', h.Arises root ⟨fs', .nobody, ledger', done'⟩ := by
  rcases gives_fullStep hRun with ⟨-, hSkip, -⟩ |
    ⟨text, command, found, fs₁, outcome, w₂, bytes, -, -, hDiscard, hLaunch, -, -, hRest, hNoted⟩
  · cases hSkip
    exact ⟨ledger, done, hArises⟩
  obtain ⟨after, rfl⟩ := Engine.launch_of_run hLaunch
  change launches = [⟨command, fs₁, outcome, after⟩] at hNoted
  have hConfined := hEngine ⟨command, fs₁, outcome, after⟩ (by simp [hNoted])
  have hEntered := hArises.move (.enter id (.compute text) hDiscard)
  have hTidy := (hEntered.sound).accounted.tidy
  obtain ⟨-, -, hForeign⟩ := (hArises.sound).accounted.discard hDiscard
  have hWorked := hEntered.move (.work (hConfined.works hTidy))
  -- The line in the log is written while the engine is held.
  have hLogged := hWorked.move (.elsewhere
    (.setContent bytes fun q hFile hEntry => hConfined.foreign (hForeign _ hLog) q hEntry hFile)
    ((hConfined.tidy hTidy).setContent log.number bytes))
  by_cases hExit : outcome.exit = .exited 0
  · rw [if_pos hExit] at hRest
    obtain ⟨ledger', hDone⟩ := Arises.keepState (w := ⟨after.setContent log.number bytes, _⟩) hTime
      (hLogged.move (.finish true)) pairwise_producedSince (fun n hMem => by
        obtain ⟨-, -, state, hState, -⟩ := hConfined.left hTidy (hForeign _ hLog) rfl hMem
        exact ⟨state, hState⟩) hRest
    exact ⟨ledger', _, hDone⟩
  · rw [if_neg hExit] at hRest
    exact ⟨_, _, Arises.dropState (w := ⟨after.setContent log.number bytes, _⟩)
      (hLogged.move (.finish false)) hRest⟩

theorem Arises.ran (hArises : h.Arises root ⟨fs, .nobody, ledger, done⟩)
    (hLog : h.store.Foreign root fs log.number)
    (hRan : Ran engine.runner log ⟨fs, []⟩ ⟨fs', launches⟩)
    (hEngine : ∀ l ∈ launches, h.store.Confined root l) :
    h.Arises root ⟨fs', .nobody, ledger, done⟩ := by
  obtain ⟨command, outcome, w₁, bytes, hArgs, hLaunch, hWorld⟩ := hRan
  obtain ⟨after, rfl⟩ := Engine.launch_of_run hLaunch
  cases hWorld
  have hConfined := hEngine ⟨command, fs, outcome, after⟩ (by simp)
  have hTidy := (hArises.sound).accounted.tidy
  have hWorked := (hArises.move .launch).move (.goOn (hConfined.works hTidy)
    fun n number hRoom hFile => hArgs (hConfined.asked n number hRoom hFile))
  refine (hWorked.move .stop).move (.elsewhere
    (.setContent bytes fun q hFile hEntry => hConfined.foreign hLog q hEntry hFile) ?_)
  exact (hConfined.tidy hTidy).setContent log.number bytes

theorem Takes.arises {turn : Turn} (hSuits : h.Suits) (hTakes : h.Takes root fs turn fs')
    (hArises : h.Arises root ⟨fs, .nobody, ledger, done⟩) :
    ∃ ledger' done', h.Arises root ⟨fs', .nobody, ledger', done'⟩ := by
  obtain ⟨⟨report, hRun⟩, -, hConfined, hTime, ⟨log, hLog, hForeign⟩, logs, hLogs⟩ := hTakes
  rcases turn with ⟨step, id, now, engine, source, launches⟩
  dsimp only at hRun hConfined hTime hLog
  cases step with
  | full log' =>
    cases hLog
    exact hArises.fullStep hTime hForeign hRun hConfined
  | timing log' =>
    cases hLog
    rcases gives_timingStep (h := h.atTime now) hSuits.full hRun with hSame | hRan
    · cases hSame
      exact ⟨ledger, done, hArises⟩
    · exact ⟨ledger, done, hArises.ran hForeign hRan hConfined⟩
  | targeted log' =>
    cases hLog
    have hTidy := hArises.sound.accounted.tidy
    obtain ⟨hAlters, hTidy'⟩ := quiet_filesWithDiff id hTidy (Files.leads_of_find hLogs)
    have hDiff := hArises.move (.elsewhere hAlters hTidy')
    rcases gives_targetedStep (h := h.atTime now) hSuits.differ hSuits.full hSuits.targeted hRun with
      hSame | hSame | hRan
    · cases hSame
      exact ⟨ledger, done, hArises⟩
    · cases hSame
      exact ⟨ledger, done, hDiff⟩
    · have hForeign' := hForeign.alters hAlters fun _ hEntry hNot => absurd hEntry hNot
      exact ⟨ledger, done, hDiff.ran hForeign' hRan hConfined⟩
  | fuzz log' coverage => cases hLog

/-- What steps come to that are taken one at a time arises too. -/
theorem History.arises {turns : List Turn} (hSuits : h.Suits) (hHistory : h.History root turns fs) :
    ∃ ledger done, h.Arises root ⟨fs, .nobody, ledger, done⟩ := by
  induction hHistory with
  | start hFound hEmpty => exact ⟨_, _, .start (tidy_of_empty hSuits.label hFound hEmpty).1⟩
  | elsewhere _ hAlters hTidy ih =>
    obtain ⟨ledger, done, hArises⟩ := ih
    exact ⟨ledger, done, hArises.move (.elsewhere hAlters hTidy)⟩
  | turn _ hTakes ih =>
    obtain ⟨ledger, done, hArises⟩ := ih
    exact hTakes.arises hSuits hArises

end Steps

/-! ## Whose state is found -/

section Decisions

variable {σ : Type} {id : ProgramId} {command : Command}

/-- Once the full run of a program is over, a targeted run of it is decided on for the state that was
kept of its last full run, or for the state that an unfinished run has put into the directory with
the number of the program. -/
theorem targeted_on_own_or_unfinished_state {scene : Scene} {engine : σ}
    (hArises : h.Arises root scene) (hDone : id ∈ scene.done) :
    Gives (h.chooseRun id) ⟨scene.files, engine⟩ (command, .targeted) ⟨scene.files, engine⟩ ↔
      Command.targeted scene.files h.config.engine.targeted (h.store.cachePath id)
        (h.config.diffPath id) h.config.targetedTimeout = .ok command ∧
      ∃ text state, scene.files.read (h.corpus.sourcePath id) = .ok text ∧
        scene.files.read (h.store.cachePath id) = .ok state ∧
        (scene.ledger.keeps id state (.compute text) ∨
          (∀ state base, ¬ scene.ledger.keeps id state base) ∧ h.store.Nameable id ∧
            ∃ run, scene.holder.run? = some run ∧ h.store.IsRoom run.launch id.number) := by
  obtain ⟨hAcc, hFits, hFresh⟩ := hArises.sound
  have hPast := hFresh id hDone
  rw [gives_chooseRun_targeted_iff]
  constructor
  · rintro ⟨-, text, artifact, hText, hFound, hCommand⟩
    obtain ⟨hRead, hMatches⟩ := gives_usableState_some_iff.mp hFound
    rcases hAcc.kept_or_loose_of_read hPast hRead with ⟨state, base, hKept, rfl⟩ |
      ⟨hNot, hLoose, state, hState, rfl⟩
    · have hBase : base = .compute text := by
        simpa [CacheArtifact.matchesBase, CacheStore.artifact] using hMatches
      rw [hBase] at hKept
      exact ⟨hCommand, text, state, hText, (hAcc.read_of_kept hKept).2, .inl hKept⟩
    · have hName := hAcc.nameable_of_read hNot hRead
      refine ⟨hCommand, text, state, hText, read_of_holds hAcc.tidy hName.1 hState,
        .inr ⟨?_, hName, ?_⟩⟩
      · exact fun state base hKept => hNot (Ledger.has_of_keeps hKept)
      · exact hFits.run_of_loose hLoose
  · rintro ⟨hCommand, text, state, hText, hState, hKept | ⟨hNot, hName, -⟩⟩
    · refine ⟨rfl, text, h.store.artifact id state (some (.compute text)), hText, ?_, hCommand⟩
      refine gives_usableState_some_iff.mpr ⟨(hAcc.read_of_kept hKept).1, ?_⟩
      simp [CacheArtifact.matchesBase, CacheStore.artifact]
    · refine ⟨rfl, text, h.store.artifact id state none, hText, ?_, hCommand⟩
      refine gives_usableState_some_iff.mpr ⟨hAcc.read_of_loose hName (fun hHas => ?_) hState, rfl⟩
      obtain ⟨state, base, hKept⟩ := (Ledger.has_number hPast).mp hHas
      exact hNot state base hKept

end Decisions

/-! ## A state of another program -/

def pair : Harness := { small "JSE" ["engine"] with config.jobs := 2 }

def third : ProgramId := ⟨3, by decide, by decide⟩

def pairFiles : Files :=
  ⟨[(["randjs"], .directory), (["randjs", "2.jse.js"], .file 0), (["randjs", "3.jse.js"], .file 1),
    (["results"], .directory), (["experiments"], .directory), (["experiments", "diffs"], .directory),
    (["experiments", "diffs", "2.diff"], .file 2)], [[], [], []]⟩

def pairFailed : Files :=
  ((pair.store.discardProduced 1).run.run
    (pair.store.leave ["results"] 1 (.file 3) [7] pairFiles)).2

/-- The second program is done, and the engine is at work for the third. -/
def pairScene : Scene :=
  ⟨pair.store.leave ["results"] 2 (.file 4) [8] pairFailed,
    .exploring ⟨third, .compute [], pairFailed⟩,
    ((pair.store.found ["results"] pairFiles).without second).without third, [second]⟩

theorem works_leave {s : CacheStore} {fs : Files} {n number : Nat} {bytes : Bytes}
    (hTidy : s.Tidy root fs) (hRoom : s.IsRoom fs n) (hNumber : number = fs.contents.length)
    (hSize : bytes.length < Json.wordBound) :
    s.Works root fs fs (s.leave root n (.file number) bytes fs) := by
  refine (confined_leave (l := ⟨⟨"engine", [stateFlag], .zero⟩, fs, ⟨.exited 0, .zero, "", ""⟩, _⟩)
    hTidy hRoom rfl ?_).works hTidy
  rintro number' hSame
  cases hSame
  exact ⟨hNumber, hSize, List.mem_cons_self⟩

theorem gives_of_run {α : Type} {x : StoreAction α} {fs fs' : Files}
    (hOk : (x.run.run fs).1.isOk = true) (hFiles : (x.run.run fs).2 = fs') :
    ∃ a, Gives x fs a fs' := by
  rw [← hFiles]
  exact Gives.exists_of_isOk hOk

theorem arises_pairScene : pair.Arises ["results"] pairScene := by
  have hTidy : pair.store.Tidy ["results"] pairFiles := by
    refine (tidy_of_empty (by decide) (by decide +kernel) fun name rest _ => ?_).1
    simp [pairFiles, Files.node?, List.lookup_cons]
  have hStart := Arises.start hTidy
  -- The engine makes its first directory for the second program, and fails.
  obtain ⟨_, hDiscard⟩ : ∃ found, Gives (pair.store.discard second) pairFiles found pairFiles :=
    gives_of_run (by decide +kernel) (by decide +kernel)
  have hEntered := hStart.move (.enter second (.compute []) hDiscard)
  have hWorks : pair.store.Works ["results"] pairFiles pairFiles
      (pair.store.leave ["results"] 1 (.file 3) [7] pairFiles) :=
    works_leave (hEntered.sound).accounted.tidy ⟨by decide, by decide +kernel⟩ rfl (by decide)
  have hEnded := (hEntered.move (.work hWorks)).move (.finish false)
  have hLeft : pair.store.producedSince (pair.store.leave ["results"] 1 (.file 3) [7] pairFiles)
      (pair.store.engineDirs pairFiles) = [1] := by decide +kernel
  rw [hLeft] at hEnded
  obtain ⟨⟨⟩, hClear⟩ : ∃ u, Gives (pair.store.discardProduced 1)
      (pair.store.leave ["results"] 1 (.file 3) [7] pairFiles) u pairFailed :=
    gives_of_run (by decide +kernel) rfl
  obtain ⟨_, hDrop⟩ : ∃ found, Gives (pair.store.discard second) pairFailed found pairFailed :=
    gives_of_run (by decide +kernel) (by decide +kernel)
  have hDone := (hEnded.move (.clear (by simp) hClear)).move (.drop hDrop)
  -- Its directory stays, so that the next one gets the number of the second program.
  obtain ⟨_, hDiscard'⟩ : ∃ found, Gives (pair.store.discard third) pairFailed found pairFailed :=
    gives_of_run (by decide +kernel) (by decide +kernel)
  have hEntered' := hDone.move (.enter third (.compute []) hDiscard')
  exact hEntered'.move (.work (works_leave (hEntered'.sound).accounted.tidy
    ⟨by decide, by decide +kernel⟩ (by decide +kernel) (by decide)))

theorem command_pairScene : ∃ command, Command.targeted pairScene.files pair.config.engine.targeted
    (pair.store.cachePath second) (pair.config.diffPath second) pair.config.targetedTimeout =
      .ok command := by
  have hOk : (Command.targeted pairScene.files pair.config.engine.targeted
      (pair.store.cachePath second) (pair.config.diffPath second)
      pair.config.targetedTimeout).isOk = true := rfl
  rcases hBuilt : Command.targeted pairScene.files pair.config.engine.targeted
      (pair.store.cachePath second) (pair.config.diffPath second) pair.config.targetedTimeout with
    e | command
  · rw [hBuilt] at hOk
    cases hOk
  · exact ⟨command, rfl⟩

theorem not_kept_pairScene (id : ProgramId) (state : Bytes) (base : Digest) :
    ¬ pairScene.ledger.keeps id state base := by
  rintro ⟨-, -, hKept⟩
  exact hKept

theorem targeted_while_third_explores :
    pair.Arises ["results"] pairScene ∧ second ∈ pairScene.done ∧
    ∃ command, Gives (pair.chooseRun second) (⟨pairScene.files, ()⟩ : World Unit)
      (command, .targeted) ⟨pairScene.files, ()⟩ := by
  obtain ⟨command, hCommand⟩ := command_pairScene
  refine ⟨arises_pairScene, List.mem_cons_self, command, ?_⟩
  refine (targeted_on_own_or_unfinished_state arises_pairScene List.mem_cons_self).mpr
    ⟨hCommand, [], [8], by decide +kernel, by decide +kernel,
      .inr ⟨not_kept_pairScene second, by decide +kernel, _, rfl, ?_⟩⟩
  exact ⟨by decide, by decide +kernel⟩

/-- A targeted run is decided on although the full run of the program is over and has left no state:
it would use what another program's run has put in the same place so far. -/
theorem targeted_on_state_of_another :
    ∃ (h : Harness) (root : Place) (scene : Scene) (run : FullRun) (id : ProgramId)
      (command : Command), 1 < h.config.jobs ∧ h.Arises root scene ∧ id ∈ scene.done ∧
      scene.holder = .exploring run ∧ run.program ≠ id ∧
      (∀ state base, ¬ scene.ledger.keeps id state base) ∧
      Gives (h.chooseRun id) (⟨scene.files, ()⟩ : World Unit) (command, .targeted)
        ⟨scene.files, ()⟩ := by
  obtain ⟨command, hCommand⟩ := command_pairScene
  refine ⟨pair, ["results"], pairScene, _, second, command, by decide, arises_pairScene,
    List.mem_cons_self, rfl, by decide, not_kept_pairScene second, ?_⟩
  obtain ⟨hAcc, -, hFresh⟩ := arises_pairScene.sound
  have hRead : Gives (pair.store.read second) pairScene.files
      (some (pair.store.artifact second [8] none)) pairScene.files := by
    refine hAcc.read_of_loose (by decide +kernel) (fun hHas => ?_) (by decide +kernel)
    obtain ⟨state, base, hKept⟩ := (Ledger.has_number (hFresh second List.mem_cons_self)).mp hHas
    exact not_kept_pairScene second state base hKept
  exact gives_chooseRun_targeted_iff.mpr ⟨rfl, [], _, by decide +kernel,
    gives_usableState_some_iff.mpr ⟨hRead, rfl⟩, hCommand⟩

end Harness

end Reanalysis
