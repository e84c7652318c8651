import Reanalysis.Proofs.Cache.Traces
import Reanalysis.Proofs.Harness.Step

/-!
# Stored states over whole histories

Full, timing and targeted steps are taken one at a time, each with an engine that keeps to its rooms.
After any number of them the state of a program can be read exactly when its last full run succeeded
and left one, and it is the newest that this run has left.
-/

namespace Reanalysis

open Files (Location)
open Command (stateFlag)

/-! ## Taking steps -/

/-- How a command ends, and the files that it leaves. -/
abbrev Engine := Command → Files → Outcome × Files

/-- Notes each launch. -/
def Engine.runner (engine : Engine) : Runner (List Launch) := fun command => do
  let w ← get
  let (outcome, after) := engine command w.files
  set (World.mk after (w.engine ++ [⟨command, w.files, outcome, after⟩]))
  return outcome

theorem Engine.launch_of_run {engine : Engine} {command : Command} {outcome : Outcome}
    {w w' : World (List Launch)} (h : (engine.runner command).run w = (outcome, w')) :
    ∃ after, w' = ⟨after, w.engine ++ [⟨command, w.files, outcome, after⟩]⟩ := by
  cases h
  exact ⟨_, rfl⟩

/-- Each launch is as the engine answers it. -/
def Engine.Noted (engine : Engine) (launches : List Launch) : Prop :=
  ∀ l ∈ launches, engine l.command l.before = (l.outcome, l.after)

theorem Engine.noted_of_run {engine : Engine} {command : Command} {outcome : Outcome}
    {w w' : World (List Launch)} (h : (engine.runner command).run w = (outcome, w'))
    (hNoted : engine.Noted w.engine) : engine.Noted w'.engine := by
  cases h
  intro l hl
  rcases List.mem_append.mp hl with hl | hl
  · exact hNoted l hl
  · obtain rfl := List.mem_singleton.mp hl
    rfl

/-- Answers with an outcome and a trace that goes to the next slot. -/
def Engine.tracing (s : CacheStore) (root : Place)
    (answer : Command → Files → Outcome × CacheStore.Trace) : Engine := fun command fs =>
  ((answer command fs).1, s.withTrace root fs (answer command fs).2)

theorem Engine.Noted.traced {s : CacheStore} {root : Place}
    {answer : Command → Files → Outcome × CacheStore.Trace} {launches : List Launch}
    (hNoted : (tracing s root answer).Noted launches) {l : Launch} (hl : l ∈ launches) :
    l.outcome = (answer l.command l.before).1 ∧
      l.after = s.withTrace root l.before (answer l.command l.before).2 := by
  obtain ⟨hOutcome, hAfter⟩ := Prod.mk.inj (hNoted l hl)
  exact ⟨hOutcome.symm, hAfter.symm⟩

def OpenStep.isFull : OpenStep → Bool
  | .full _ => true
  | _ => false

def OpenStep.log? : OpenStep → Option Log
  | .full log | .timing log | .targeted log => some log
  | .fuzz .. => none

structure Turn where
  step : OpenStep
  program : ProgramId
  now : Instant
  engine : Engine
  /-- What could be read of the program before. -/
  source : Except FileError Bytes
  launches : List Launch

namespace Harness

def atTime (h : Harness) (now : Instant) : Harness := { h with now }

structure Takes (h : Harness) (root : Place) (fs : Files) (turn : Turn) (fs' : Files) : Prop where
  gives : ∃ report, Gives ((h.atTime turn.now).runStep turn.engine.runner turn.program turn.step)
    ⟨fs, []⟩ report ⟨fs', turn.launches⟩
  source : turn.source = fs.read (h.corpus.sourcePath turn.program)
  confined : ∀ l ∈ turn.launches, h.store.Confined root l
  time : turn.now.Representable
  log : ∃ log, turn.step.log? = some log ∧ h.store.Foreign root fs log.number
  logs : ∃ place, fs.find h.config.logDir = .ok (place, .directory)

/-- Steps from an empty directory for results on. Between them anything may happen to files that are
neither states nor sidecars. -/
inductive History (h : Harness) (root : Place) : List Turn → Files → Prop
  | start {fs : Files} (hFound : fs.find h.config.resultsDir = .ok (root, .directory))
      (hEmpty : ∀ name rest, name ≠ "/" → fs.node? (root ++ name :: rest) = none) :
      History h root [] fs
  | elsewhere {turns : List Turn} {fs fs' : Files} (hPast : History h root turns fs)
      (hAlters : Files.Alters (fun q => ¬ h.store.Entry root q) fs fs')
      (hTidy : h.store.Tidy root fs') : History h root turns fs'
  | turn {turns : List Turn} {turn : Turn} {fs fs' : Files} (hPast : History h root turns fs)
      (hTakes : h.Takes root fs turn fs') : History h root (turns ++ [turn]) fs'

end Harness

/-! ## What should be kept -/

def Turn.fullLaunch? (turn : Turn) (id : ProgramId) : Option Launch :=
  if turn.step.isFull ∧ turn.program = id then turn.launches.head? else none

/-- The last full step for a program that launched the engine. -/
def lastFull? (turns : List Turn) (id : ProgramId) : Option (Turn × Launch) :=
  turns.reverse.findSome? fun turn => (turn.fullLaunch? id).map (turn, ·)

/-- What a full step should keep for its program. -/
def Turn.Keeps (s : CacheStore) (turn : Turn) (l : Launch) (state : Bytes) (base : Digest) : Prop :=
  l.outcome.exit = .exited 0 ∧ l.Leaves s state ∧
    ∃ text, turn.source = .ok text ∧ base = .compute text

def keptAfter (s : CacheStore) (turns : List Turn) (id : ProgramId) (state : Bytes)
    (base : Digest) : Prop :=
  ∃ turn l, lastFull? turns id = some (turn, l) ∧ turn.Keeps s l state base

section Kept

variable {s : CacheStore} {turns : List Turn} {turn : Turn} {id : ProgramId} {state : Bytes}
  {base : Digest}

theorem keptAfter_append_of_none (h : turn.fullLaunch? id = none) :
    keptAfter s (turns ++ [turn]) id state base ↔ keptAfter s turns id state base := by
  have hLast : lastFull? (turns ++ [turn]) id = lastFull? turns id := by
    simp [lastFull?, h]
  rw [keptAfter, hLast]
  rfl

theorem keptAfter_append_of_full {l : Launch} (hFull : turn.step.isFull = true)
    (hLaunch : turn.launches = [l]) :
    keptAfter s (turns ++ [turn]) id state base ↔
      id = turn.program ∧ turn.Keeps s l state base ∨
        id ≠ turn.program ∧ keptAfter s turns id state base := by
  by_cases hId : id = turn.program
  · subst hId
    have hLast : lastFull? (turns ++ [turn]) turn.program = some (turn, l) := by
      simp [lastFull?, Turn.fullLaunch?, hFull, hLaunch]
    simp [keptAfter, hLast]
  · rw [keptAfter_append_of_none (by simp [Turn.fullLaunch?, Ne.symm hId])]
    simp [hId]

theorem keptAfter_append_of_quiet (h : turn.step.isFull = true → turn.launches = []) :
    keptAfter s (turns ++ [turn]) = keptAfter s turns := by
  funext id state base
  refine propext (keptAfter_append_of_none ?_)
  rw [Turn.fullLaunch?]
  split
  · rename_i hFull
    rw [h hFull.1]
    rfl
  · rfl

end Kept

namespace Harness

open HarnessAction CacheStore

variable {h : Harness} {root : Place} {ledger : Ledger} {id : ProgramId} {log : Log}

/-! ## Launches are noted -/

section Noted

variable {engine : Engine} {w w' : World (List Launch)} {report : StepReport}
  (hNoted : engine.Noted w.engine)

include hNoted

theorem noted_of_fullStep (hRun : Gives (h.fullStep engine.runner log id) w report w') :
    engine.Noted w'.engine := by
  rcases gives_fullStep hRun with ⟨-, rfl, -⟩ | ⟨text, command, found, fs₁, outcome, w₂, bytes, -, -, -,
    hLaunch, -, -, -, hEngine⟩
  · exact hNoted
  · rw [hEngine]
    exact Engine.noted_of_run hLaunch hNoted

theorem noted_of_timingStep (hRun : Gives (h.timingStep engine.runner log id) w report w') :
    engine.Noted w'.engine := by
  rw [timingStep] at hRun
  rcases gives_withSource hRun with ⟨-, rfl, -⟩ | ⟨-, hRun⟩
  · exact hNoted
  · simp only [Gives.bind_iff, gives_files_iff, gives_ofCommand_iff, Gives.pure_iff] at hRun
    obtain ⟨_, _, ⟨rfl, rfl⟩, command, _, ⟨-, rfl⟩, result, _, hExecute, -, rfl⟩ := hRun
    obtain ⟨outcome, w₁, bytes, hLaunch, -, rfl, -⟩ := gives_execute hExecute
    have hAfter := Engine.noted_of_run hLaunch hNoted
    exact hAfter

theorem noted_of_targetedStep (hDiffer : h.config.differ.external? = none)
    (hRun : Gives (h.targetedStep engine.runner log id) w report w') : engine.Noted w'.engine := by
  rcases exists_of_targetedStep hDiffer hRun with ⟨rfl, -⟩ | ⟨-, message, w₁, rfl, -, ⟨-, rfl, -⟩ |
    ⟨-, command, mode, outcome, w₂, bytes, -, hLaunch, -, rfl, -⟩⟩
  · exact hNoted
  · exact hNoted
  · have hAfter := Engine.noted_of_run hLaunch hNoted
    exact hAfter

theorem noted_of_runStep {step : OpenStep} (hDiffer : h.config.differ.external? = none)
    (hStep : step.log?.isSome = true) (hRun : Gives (h.runStep engine.runner id step) w report w') :
    engine.Noted w'.engine := by
  cases step with
  | full log => exact noted_of_fullStep hNoted hRun
  | timing log => exact noted_of_timingStep hNoted hRun
  | targeted log => exact noted_of_targetedStep hNoted hDiffer hRun
  | fuzz log coverage => cases hStep

end Noted

/-! ## After a full run -/

section Upkeep

variable {σ : Type} {w w' : World σ} {produced : List Nat}

theorem accounted_of_discards {rest : List Nat} {u : PUnit}
    (hAcc : h.store.Accounted root ledger (· ∈ produced ++ rest) w.files)
    (hRun : Gives (produced.forM fun n =>
      (ofStore (h.store.discardProduced n) : HarnessAction σ Unit)) w u w') :
    ∃ fs, w' = { w with files := fs } ∧ h.store.Accounted root ledger (· ∈ rest) fs ∧
      Files.Alters (fun q => ∃ n ∈ produced, q = h.store.filePlace root n blobName) w.files fs ∧
      ∀ n ∈ produced, fs.node? (h.store.filePlace root n blobName) = none := by
  induction produced generalizing w with
  | nil =>
    rw [Gives.forM_nil_iff] at hRun
    exact ⟨w.files, hRun.symm, hAcc, .refl _ _, List.forall_mem_nil _⟩
  | cons n produced ih =>
    simp only [Gives.forM_cons_iff, gives_ofStore_iff] at hRun
    obtain ⟨w₁, ⟨fs₁, hFirst, rfl⟩, hRest⟩ := hRun
    obtain ⟨hGone₁, -⟩ := gives_discardProduced hAcc.tidy hFirst
    obtain ⟨hAcc₁, hAlters₁⟩ := hAcc.discardProduced List.mem_cons_self
      (fun m => List.mem_cons_of_mem n)
      (fun m hm hNe => (List.mem_cons.mp hm).resolve_left hNe) hFirst
    obtain ⟨fs, hWorld, hAcc', hAlters, hGone⟩ := ih hAcc₁ hRest
    refine ⟨fs, hWorld, hAcc', (hAlters₁.mono ?_).trans (hAlters.mono ?_), fun m hm => ?_⟩
    · exact fun q hq => ⟨n, List.mem_cons_self, hq⟩
    · rintro q ⟨m, hm, hq⟩
      exact ⟨m, List.mem_cons_of_mem n hm, hq⟩
    · by_cases hLater : m ∈ produced
      · exact hGone m hLater
      · obtain rfl := (List.mem_cons.mp hm).resolve_right hLater
        rw [hAlters.node, hGone₁]
        rintro ⟨other, hOther, hEq⟩
        exact hLater ((filePlace_inj hEq).1 ▸ hOther)

theorem folder_of_discards {s : CacheStore} {fs fs' : Files}
    (hAlters : Files.Alters (fun q => ∃ n ∈ produced, q = s.filePlace root n blobName) fs fs')
    (hGone : ∀ n ∈ produced, fs'.node? (s.filePlace root n blobName) = none) {n : Nat}
    (hFolder : fs'.node? (s.filePlace root n blobName) = some .directory) :
    fs.node? (s.filePlace root n blobName) = some .directory := by
  by_cases hMem : n ∈ produced
  · rw [hGone n hMem] at hFolder
    cases hFolder
  · rwa [hAlters.node] at hFolder
    rintro ⟨m, hm, hEq⟩
    exact hMem ((filePlace_inj hEq).1 ▸ hm)

theorem newest_stays {s : CacheStore} {front : List Nat} {n : Nat}
    (hOrder : (front ++ [n]).Pairwise (· < ·)) :
    ¬ ∃ m ∈ front, s.filePlace root n blobName = s.filePlace root m blobName := by
  rintro ⟨m, hMem, hEq⟩
  have hLt := (List.pairwise_append.mp hOrder).2.2 m hMem n List.mem_cons_self
  exact absurd (filePlace_inj hEq).1.symm (Nat.ne_of_lt hLt)

/-- Only the states that a full run has left and the slot of its program have changed, and no directory
has come in the place of a state. -/
structure Tends (s : CacheStore) (root : Place) (id : ProgramId) (produced : List Nat)
    (fs fs' : Files) : Prop where
  alters : Files.Alters (fun q => (∃ n ∈ produced, q = s.filePlace root n blobName) ∨
    q = s.slotPlace root id.number ∨ q = s.filePlace root id.number blobName ∨
    q = s.filePlace root id.number metaName) fs fs'
  noFolder : ∀ n, fs'.node? (s.filePlace root n blobName) = some .directory →
    fs.node? (s.filePlace root n blobName) = some .directory

theorem accounted_of_dropState {u : Unit}
    (hAcc : h.store.Accounted root (ledger.without id) (· ∈ produced) w.files)
    (hRun : Gives (h.dropState id produced) w u w') :
    ∃ fs, w' = { w with files := fs } ∧ h.store.Accounted root (ledger.without id) noLoose fs ∧
      Tends h.store root id produced w.files fs := by
  simp only [dropState, Gives.bind_iff, gives_ofStore_iff, Gives.pure_iff] at hRun
  obtain ⟨_, w₁, hDiscards, _, _, ⟨fs, hDiscard, rfl⟩, -, rfl⟩ := hRun
  rw [← List.append_nil produced] at hAcc
  obtain ⟨fs₁, rfl, hAcc₁, hFirst, hGone⟩ := accounted_of_discards hAcc hDiscards
  obtain ⟨-, hAcc', -⟩ := (noLoose_iff.mp hAcc₁).discard hDiscard
  obtain ⟨-, -, hBlob, -, hSecond, -⟩ := gives_discard hAcc₁.tidy hDiscard
  rw [Ledger.without_without] at hAcc'
  refine ⟨fs, rfl, hAcc', (hFirst.mono fun q hq => .inl hq).trans (hSecond.mono ?_), ?_⟩
  · exact fun q hq => .inr (.inr hq)
  · intro n hFolder
    by_cases hNumber : n = id.number
    · rw [hNumber, hBlob] at hFolder
      cases hFolder
    · rw [hSecond.node] at hFolder
      · exact folder_of_discards hFirst hGone hFolder
      · rintro (hEq | hEq) <;> exact hNumber (filePlace_inj hEq).1

theorem accounted_of_keepState {base : Digest} {u : Unit}
    (hAcc : h.store.Accounted root (ledger.without id) (· ∈ produced) w.files)
    (hOrder : produced.Pairwise (· < ·)) (hName : h.store.Nameable id)
    (hTime : h.now.Representable)
    (hStates : ∀ n ∈ produced, h.store.Reaches n blobName ∧
      ∃ state, w.files.Holds (h.store.filePlace root n blobName) state ∧
        state.length < Json.wordBound)
    (hRun : Gives (h.keepState id base produced) w u w') :
    ∃ fs, w' = { w with files := fs } ∧
      (produced = [] ∧ h.store.Accounted root (ledger.without id) noLoose fs ∨
        ∃ n state, produced.getLast? = some n ∧
          w.files.Holds (h.store.filePlace root n blobName) state ∧
          h.store.Accounted root (ledger.record id state base) noLoose fs) ∧
      Tends h.store root id produced w.files fs := by
  rw [keepState] at hRun
  cases hLast : produced.getLast? with
  | none =>
    have hNil := List.getLast?_eq_none_iff.mp hLast
    subst hNil
    simp only [List.getLast?_nil, Gives.bind_iff, gives_ofStore_iff, Gives.pure_iff] at hRun
    obtain ⟨_, _, ⟨fs, hRegister, rfl⟩, -, rfl⟩ := hRun
    rw [noLoose_iff] at hAcc
    rw [hAcc.register hName hRegister]
    exact ⟨w.files, rfl, .inl ⟨rfl, hAcc⟩, .refl _ _, fun _ hFolder => hFolder⟩
  | some n =>
    obtain ⟨front, rfl⟩ := List.getLast?_eq_some_iff.mp hLast
    simp only [hLast, List.dropLast_concat, Gives.bind_iff, gives_ofStore_iff, Gives.pure_iff] at hRun
    obtain ⟨_, w₁, hDiscards, _, _, ⟨fs, hAdopt, rfl⟩, -, rfl⟩ := hRun
    obtain ⟨fs₁, rfl, hAcc₁, hFirst, hGone⟩ := accounted_of_discards hAcc hDiscards
    obtain ⟨hReach, state, hState, hSize⟩ := hStates n (by simp)
    have hState₁ := hFirst.held _ _ (newest_stays hOrder) hState
    simp only [List.mem_singleton] at hAcc₁
    obtain ⟨hMoved, ⟨number, hBlob, -⟩, -, hSecond, -⟩ := gives_adopt hAcc₁.tidy hReach hState₁ hAdopt
    refine ⟨fs, rfl, .inr ⟨n, state, rfl, hState,
      hAcc₁.adopt hName hTime hReach hState₁ hSize hAdopt⟩, (hFirst.mono ?_).trans (hSecond.mono ?_),
      ?_⟩
    · rintro q ⟨m, hm, hq⟩
      exact .inl ⟨m, List.mem_append_left _ hm, hq⟩
    · rintro q (hq | hq | hq)
      · exact .inr (.inl hq)
      · exact .inl ⟨n, by simp, hq⟩
      · exact .inr (.inr hq)
    · intro m hFolder
      by_cases hNumber : m = id.number
      · rw [hNumber, hBlob] at hFolder
        cases hFolder
      · by_cases hNewest : m = n
        · subst hNewest
          rw [hMoved hNumber] at hFolder
          cases hFolder
        · rw [hSecond.node] at hFolder
          · exact folder_of_discards hFirst hGone hFolder
          · rintro (hEq | hEq | hEq | hEq)
            · exact filePlace_ne_slotPlace hEq
            · exact hNewest (filePlace_inj hEq).1
            · exact hNumber (filePlace_inj hEq).1
            · exact hNumber (filePlace_inj hEq).1

theorem accounted_of_upkeep {l : Launch} {number : Nat} {bytes : Bytes} {base : Digest} {u : Unit}
    (hAcc : h.store.Accounted root (ledger.without id) noLoose l.before)
    (hConfined : h.store.Confined root l) (hName : h.store.Nameable id) (hTime : h.now.Representable)
    (hNumber : h.store.Foreign root l.before number) (hFiles : w.files = l.after.setContent number bytes)
    (hRun : Gives (if l.outcome.exit = .exited 0
      then h.keepState id base (h.store.producedSince w.files (h.store.engineDirs l.before))
      else h.dropState id (h.store.producedSince w.files (h.store.engineDirs l.before))) w u w') :
    Tends h.store root id (h.store.producedSince w.files (h.store.engineDirs l.before)) w.files
      w'.files ∧
    (l.outcome.exit = .exited 0 ∧ (∃ state, l.Leaves h.store state ∧
        h.store.Accounted root (ledger.record id state base) noLoose w'.files) ∨
      (l.outcome.exit = .exited 0 → ∀ state, ¬ l.Leaves h.store state) ∧
        h.store.Accounted root (ledger.without id) noLoose w'.files) := by
  have hAcc' := hAcc.launched hConfined hNumber hFiles
  by_cases hExit : l.outcome.exit = .exited 0
  · rw [if_pos hExit] at hRun
    obtain ⟨fs, rfl, hKept, hTends⟩ := accounted_of_keepState hAcc' pairwise_producedSince hName hTime
      (fun n hMem => by
        obtain ⟨hReach, -, state, hState, hSize, -⟩ := hConfined.left hAcc.tidy hNumber hFiles hMem
        exact ⟨hReach, state, hState, hSize⟩) hRun
    refine ⟨hTends, ?_⟩
    rcases hKept with ⟨hNil, hAcc''⟩ | ⟨n, state, hLast, hState, hAcc''⟩
    · exact .inr ⟨fun _ => hConfined.not_leaves hAcc.tidy hFiles hNil, hAcc''⟩
    · exact .inl ⟨hExit, state, hConfined.leaves hAcc.tidy hNumber hFiles hLast hState, hAcc''⟩
  · rw [if_neg hExit] at hRun
    obtain ⟨fs, rfl, hAcc'', hTends⟩ := accounted_of_dropState hAcc' hRun
    exact ⟨hTends, .inr ⟨fun hTrue => absurd hTrue hExit, hAcc''⟩⟩

end Upkeep

/-! ## What one step does to the ledger -/

section Steps

variable {engine : Engine} {fs fs' : Files} {launches : List Launch} {report : StepReport}

/-- A full step that launches the engine decides anew what is kept for its program. -/
theorem accounted_of_fullStep {w w' : World (List Launch)}
    (hAcc : h.store.Accounted root ledger noLoose w.files) (hTime : h.now.Representable)
    (hLog : h.store.Foreign root w.files log.number)
    (hRun : Gives (h.fullStep engine.runner log id) w report w')
    (hEngine : ∀ l, w'.engine = w.engine ++ [l] → h.store.Confined root l) :
    w' = w ∨
    ∃ l text, w'.engine = w.engine ++ [l] ∧ w.files.read (h.corpus.sourcePath id) = .ok text ∧
      (l.outcome.exit = .exited 0 ∧ (∃ state, l.Leaves h.store state ∧
          h.store.Accounted root (ledger.record id state (.compute text)) noLoose w'.files) ∨
        (l.outcome.exit = .exited 0 → ∀ state, ¬ l.Leaves h.store state) ∧
          h.store.Accounted root (ledger.without id) noLoose w'.files) := by
  rcases gives_fullStep hRun with ⟨-, hSkip, -⟩ | ⟨text, command, found, fs₁, outcome, w₂, bytes, hText,
    -, hDiscard, hLaunch, -, -, hRest, hNoted⟩
  · exact .inl hSkip
  obtain ⟨after, rfl⟩ := Engine.launch_of_run hLaunch
  change w'.engine = w.engine ++ [⟨command, fs₁, outcome, after⟩] at hNoted
  generalize hThat : Launch.mk command fs₁ outcome after = l at hNoted hRest
  obtain ⟨rfl, rfl, rfl⟩ : l.before = fs₁ ∧ l.outcome = outcome ∧ l.after = after := by
    rw [← hThat]
    exact ⟨rfl, rfl, rfl⟩
  obtain ⟨hName, hAcc₁, hForeign⟩ := hAcc.discard hDiscard
  obtain ⟨-, hKept⟩ := accounted_of_upkeep (w := ⟨l.after.setContent log.number bytes, _⟩) hAcc₁
    (hEngine l hNoted) hName hTime (hForeign _ hLog) rfl hRest
  exact .inr ⟨l, text, hNoted, hText, hKept⟩

/-- A full step for one program takes nothing from another. -/
theorem accounted_of_other {w w' : World (List Launch)} {other : ProgramId} {state : Bytes} {base : Digest}
    (hAcc : h.store.Accounted root ledger noLoose w.files) (hTime : h.now.Representable)
    (hLog : h.store.Foreign root w.files log.number)
    (hRun : Gives (h.fullStep engine.runner log id) w report w')
    (hEngine : ∀ l, w'.engine = w.engine ++ [l] → h.store.Confined root l) (hOther : other ≠ id)
    (hKept : ledger.keeps other state base) :
    ∃ ledger', h.store.Accounted root ledger' noLoose w'.files ∧ ledger'.keeps other state base := by
  rcases accounted_of_fullStep hAcc hTime hLog hRun hEngine with
    rfl | ⟨l, text, -, -, ⟨-, newest, -, hAcc'⟩ | ⟨-, hAcc'⟩⟩
  · exact ⟨ledger, hAcc, hKept⟩
  · exact ⟨_, hAcc', .inr ⟨hOther, hKept⟩⟩
  · exact ⟨_, hAcc', hOther, hKept⟩

theorem accounted_of_unasked {l : Launch} {number : Nat} {bytes : Bytes}
    (hAcc : h.store.Accounted root ledger noLoose l.before) (hConfined : h.store.Confined root l)
    (hNumber : h.store.Foreign root l.before number) (hArgs : stateFlag ∉ l.command.args) :
    h.store.Accounted root ledger noLoose (l.after.setContent number bytes) := by
  have hNil : h.store.producedSince (l.after.setContent number bytes)
      (h.store.engineDirs l.before) = [] := by
    rw [List.eq_nil_iff_forall_not_mem]
    intro n hMem
    exact hArgs (hConfined.left hAcc.tidy hNumber rfl hMem).2.1
  rw [← noLoose_iff, ← hNil]
  exact hAcc.launched hConfined hNumber rfl

theorem accounted_of_ran (hAcc : h.store.Accounted root ledger noLoose fs)
    (hLog : h.store.Foreign root fs log.number)
    (hRan : Ran engine.runner log ⟨fs, []⟩ ⟨fs', launches⟩)
    (hEngine : ∀ l ∈ launches, h.store.Confined root l) :
    h.store.Accounted root ledger noLoose fs' := by
  obtain ⟨command, outcome, w₁, bytes, hArgs, hLaunch, hWorld⟩ := hRan
  obtain ⟨after, rfl⟩ := Engine.launch_of_run hLaunch
  cases hWorld
  exact accounted_of_unasked (l := ⟨command, fs, outcome, after⟩) hAcc (hEngine _ (by simp)) hLog hArgs

theorem exists_below {s : CacheStore} {logs : Place} {n : Nat} {rest tail : List String}
    (hTail : s.slotName n ∉ tail) (hEq : root ++ s.slotName n :: rest = logs ++ tail) :
    ∃ inner, logs = root ++ s.slotName n :: inner ∧ rest = inner ++ tail := by
  rcases List.append_eq_append_iff.mp hEq with ⟨front, hLogs, hRest⟩ | ⟨front, -, hTail'⟩
  · cases front with
    | nil =>
      rw [List.nil_append] at hRest
      exact absurd (hRest ▸ List.mem_cons_self) hTail
    | cons name inner =>
      rw [List.cons_append, List.cons.injEq] at hRest
      rw [← hRest.1] at hLogs
      exact ⟨inner, hLogs, hRest.2⟩
  · exact absurd (hTail' ▸ List.mem_append_right _ List.mem_cons_self) hTail

/-- A way down from a directory that passes no slot and does not end with the name of a state or a
sidecar. -/
structure Beside (s : CacheStore) (tail : List String) : Prop where
  ne_nil : tail ≠ []
  noSlot : ∀ n, s.slotName n ∉ tail
  noBlob : tail.getLast? ≠ some blobName
  noSidecar : tail.getLast? ≠ some metaName

theorem Beside.not_entry {s : CacheStore} {tail : List String} (h : Beside s tail) (logs : Place) :
    ¬ s.Entry root (logs ++ tail) := by
  rintro ⟨n, name, hName, hEq⟩
  obtain ⟨inner, -, hRest⟩ := exists_below (h.noSlot n) hEq.symm
  have hLast := congrArg List.getLast? hRest
  rw [List.getLast?_append_of_ne_nil _ h.ne_nil] at hLast
  rcases hName with rfl | rfl
  · exact h.noBlob hLast.symm
  · exact h.noSidecar hLast.symm

theorem quiet_beside {s : CacheStore} {logs : Place} {tails : List String → Prop}
    (hTidy : s.Tidy root fs) (hLogs : fs.node? logs = some .directory)
    (hTails : ∀ tail, tails tail → Beside s tail)
    (hAlters : Files.Alters (fun q => ∃ tail, tails tail ∧ q = logs ++ tail) fs fs') :
    Files.Alters (fun q => ¬ s.Entry root q) fs fs' ∧ s.Tidy root fs' := by
  refine ⟨hAlters.mono ?_, hTidy.alters hAlters ?_ ?_⟩
  · rintro q ⟨tail, hTail, rfl⟩
    exact (hTails tail hTail).not_entry logs
  · rintro n ⟨tail, hTail, hEq⟩
    obtain ⟨inner, -, hRest⟩ := exists_below ((hTails tail hTail).noSlot n) hEq
    exact absurd (List.append_eq_nil_iff.mp hRest.symm).2 (hTails tail hTail).ne_nil
  · rintro n name rest ⟨tail, hTail, hEq⟩ -
    -- The directory is below the slot, or it is the slot.
    obtain ⟨inner, rfl, -⟩ := exists_below ((hTails tail hTail).noSlot n) hEq
    exact hAlters.standing _ (hTidy.slot_of_below hLogs)

theorem beside_of_last {s : CacheStore} {front : List String} {name : String}
    (hFront : ∀ n, s.slotName n ∉ front) (hName : name.toList.getLast?.all (!·.isDigit) = true)
    (hBlob : name ≠ blobName) (hMeta : name ≠ metaName) : Beside s (front ++ [name]) := by
  refine ⟨by simp, fun n hMem => ?_, by simpa using hBlob, by simpa using hMeta⟩
  rcases List.mem_append.mp hMem with hMem | hMem
  · exact hFront n hMem
  · exact slotName_ne hName (List.mem_singleton.mp hMem)

theorem beside_diffs (s : CacheStore) : Beside s ["diffs"] := by
  rw [← List.nil_append ["diffs"]]
  exact beside_of_last (fun _ => List.not_mem_nil) (by decide) (by decide) (by decide)

theorem getLast?_diff (id : ProgramId) : (id.render ++ ".diff").toList.getLast? = some 'f' := by
  rw [String.toList_append, List.getLast?_append]
  rfl

theorem beside_diff (s : CacheStore) (id : ProgramId) : Beside s ["diffs", id.render ++ ".diff"] := by
  have hOther : ∀ name : String, name.toList.getLast? ≠ some 'f' → id.render ++ ".diff" ≠ name := by
    rintro name hLast rfl
    exact hLast (getLast?_diff id)
  rw [← List.singleton_append]
  refine beside_of_last (fun n hMem => ?_) ?_ (hOther _ (by decide)) (hOther _ (by decide))
  · exact slotName_ne (by decide) (List.mem_singleton.mp hMem)
  · rw [getLast?_diff]
    rfl

theorem quiet_filesWithDiff (id : ProgramId) {logs : Place} (hTidy : h.store.Tidy root fs)
    (hLogs : fs.Leads h.config.logDir logs) :
    Files.Alters (fun q => ¬ h.store.Entry root q) fs (h.filesWithDiff id fs) ∧
      h.store.Tidy root (h.filesWithDiff id fs) := by
  have hAlters : Files.Alters _ fs (h.filesWithDiff id fs) := alters_filesWithDiff hLogs
  have hTails : ∀ tail, tail = ["diffs"] ∨ tail = ["diffs", id.render ++ ".diff"] →
      Beside h.store tail := by
    rintro tail (rfl | rfl)
    · exact beside_diffs _
    · exact beside_diff _ id
  refine quiet_beside hTidy hLogs.directory hTails (hAlters.mono ?_)
  rintro q (rfl | rfl)
  · exact ⟨_, .inl rfl, rfl⟩
  · exact ⟨_, .inr rfl, rfl⟩

end Steps

/-! ## Over whole histories -/

/-- The changes are computed by the harness itself, and the configured commands do not ask for
states. -/
structure Suits (h : Harness) : Prop where
  label : '/' ∉ h.config.engineLabel.toList
  differ : h.config.differ.external? = none
  full : stateFlag ∉ h.config.engine.full.tail
  targeted : stateFlag ∉ h.config.engine.targeted.tail

theorem ofStates_append_of_kept {s : CacheStore} {turns : List Turn} {turn : Turn} {l : Launch}
    {state text : Bytes} (hFull : turn.step.isFull = true) (hLaunch : turn.launches = [l])
    (hSource : turn.source = .ok text) (hExit : l.outcome.exit = .exited 0) (hLeaves : l.Leaves s state) :
    Ledger.ofStates (keptAfter s (turns ++ [turn])) =
      (Ledger.ofStates (keptAfter s turns)).record turn.program state (.compute text) := by
  ext other state' base'
  · refine (keptAfter_append_of_full hFull hLaunch).trans (or_congr_left ?_)
    refine and_congr_right fun _ => ⟨?_, ?_⟩
    · rintro ⟨-, hLeaves', text', hText', rfl⟩
      cases hSource.symm.trans hText'
      exact ⟨hLeaves'.unique hLeaves, rfl⟩
    · rintro ⟨rfl, rfl⟩
      exact ⟨hExit, hLeaves, text, hSource, rfl⟩
  · simp [Ledger.ofStates, Ledger.record, Ledger.without]

theorem ofStates_append_of_not_kept {s : CacheStore} {turns : List Turn} {turn : Turn} {l : Launch}
    (hFull : turn.step.isFull = true) (hLaunch : turn.launches = [l])
    (hNot : l.outcome.exit = .exited 0 → ∀ state, ¬ l.Leaves s state) :
    Ledger.ofStates (keptAfter s (turns ++ [turn])) =
      (Ledger.ofStates (keptAfter s turns)).without turn.program := by
  ext other state' base'
  · refine (keptAfter_append_of_full hFull hLaunch).trans (or_iff_right ?_)
    rintro ⟨-, hExit, hLeaves, -⟩
    exact hNot hExit state' hLeaves
  · simp [Ledger.ofStates, Ledger.without]

theorem Takes.accounted {turns : List Turn} {turn : Turn} {fs fs' : Files} (hSuits : h.Suits)
    (hTakes : h.Takes root fs turn fs')
    (hAcc : h.store.Accounted root (.ofStates (keptAfter h.store turns)) noLoose fs) :
    h.store.Accounted root (.ofStates (keptAfter h.store (turns ++ [turn]))) noLoose fs' := by
  obtain ⟨⟨report, hRun⟩, hSource, hConfined, hTime, ⟨log, hLog, hForeign⟩, logs, hLogs⟩ := hTakes
  rcases turn with ⟨step, id, now, engine, source, launches⟩
  dsimp only at hRun hSource hConfined hTime hLog
  have hAcc' : (h.atTime now).store.Accounted root (.ofStates (keptAfter h.store turns)) noLoose fs :=
    hAcc.atTime now
  have hConfined' : ∀ l ∈ launches, (h.atTime now).store.Confined root l := fun l hMem =>
    (hConfined l hMem).atTime now
  cases step with
  | full log' =>
    cases hLog
    rcases accounted_of_fullStep (w := ⟨fs, []⟩) hAcc' hTime hForeign hRun
      (fun l hNoted => hConfined' l (by simp [show launches = [l] from hNoted])) with hSame |
      ⟨l, text, hNoted, hText, hKept⟩
    · cases hSame
      rw [keptAfter_append_of_quiet fun _ => rfl]
      exact hAcc
    obtain rfl : launches = [l] := hNoted
    obtain rfl : source = .ok text := hSource.trans hText
    rcases hKept with ⟨hExit, state, hLeaves, hAcc''⟩ | ⟨hNot, hAcc''⟩
    · rw [ofStates_append_of_kept (s := h.store) rfl rfl rfl hExit hLeaves]
      exact hAcc''.atTime h.now
    · rw [ofStates_append_of_not_kept (s := h.store) rfl rfl hNot]
      exact hAcc''.atTime h.now
  | timing log' =>
    cases hLog
    rw [keptAfter_append_of_quiet fun hFull => by cases hFull]
    rcases gives_timingStep (h := h.atTime now) hSuits.full hRun with hSame | hRan
    · cases hSame
      exact hAcc
    · exact (accounted_of_ran hAcc' hForeign hRan hConfined').atTime h.now
  | targeted log' =>
    cases hLog
    rw [keptAfter_append_of_quiet fun hFull => by cases hFull]
    obtain ⟨hAlters, hTidy⟩ :=
      quiet_filesWithDiff (h := h.atTime now) id hAcc'.tidy (Files.leads_of_find hLogs)
    have hDiff := hAcc'.quiet hAlters hTidy
    have hForeign' := hForeign.alters hAlters fun _ hEntry hNot => absurd hEntry hNot
    rcases gives_targetedStep (h := h.atTime now) hSuits.differ hSuits.full hSuits.targeted hRun with
      hSame | hSame | hRan
    · cases hSame
      exact hAcc
    · cases hSame
      exact hDiff.atTime h.now
    · exact (accounted_of_ran hDiff hForeign' hRan hConfined').atTime h.now
  | fuzz log' coverage => cases hLog

theorem tidy_of_empty {s : CacheStore} {fs : Files} (hLabel : '/' ∉ s.label.toList)
    (hFound : fs.find s.resultsDir = .ok (root, .directory))
    (hEmpty : ∀ name rest, name ≠ "/" → fs.node? (root ++ name :: rest) = none) :
    s.Tidy root fs ∧ ∀ n rest, fs.node? (root ++ s.slotName n :: rest) = none := by
  have hNone : ∀ n rest, fs.node? (root ++ s.slotName n :: rest) = none := by
    intro n rest
    refine hEmpty _ rest fun hEq => (plain_slotName hLabel n).no_slash ?_
    rw [hEq]
    decide
  refine ⟨⟨hLabel, hFound, ?_, fun n name rest hThere => absurd (hNone n (name :: rest)) hThere⟩,
    hNone⟩
  intro n number hFile
  rw [slotPlace, hNone n []] at hFile
  cases hFile

theorem History.accounted {turns : List Turn} {fs : Files} (hSuits : h.Suits)
    (hHistory : h.History root turns fs) :
    h.store.Accounted root (.ofStates (keptAfter h.store turns)) noLoose fs := by
  induction hHistory with
  | @start fs hFound hEmpty =>
    obtain ⟨hTidy, hNone⟩ := tidy_of_empty (s := h.store) hSuits.label hFound hEmpty
    refine .of_found hTidy ?_ fun n => ?_
    · rintro id state base ⟨turn, l, hLast, -⟩
      cases hLast
    · rw [slotPlace, hNone n []]
      simp [Ledger.ofStates]
  | elsewhere _ hAlters hTidy ih => exact ih.quiet hAlters hTidy
  | turn _ hTakes ih => exact hTakes.accounted hSuits ih

/-- After any history a program has a stored state exactly when its last full run has succeeded and
left one. Then it is the newest that the run has left, recorded with the text of the program at that
time. Otherwise none is read, or the read fails because the system cannot take a location or finds a
directory there. A step for one program does not change what is stored for another. -/
theorem stored_states_follow_full_runs {turns : List Turn} {fs : Files} (hSuits : h.Suits)
    (hHistory : h.History root turns fs) (id : ProgramId) :
    ((∃ artifact, Gives (h.store.read id) fs (some artifact) fs) ↔
      ∃ state base, keptAfter h.store turns id state base) ∧
    (∀ state base, keptAfter h.store turns id state base →
      Gives (h.store.read id) fs (some (h.store.artifact id state (some base))) fs ∧
        fs.read (h.store.cachePath id) = .ok state) ∧
    (h.store.Nameable id → fs.isDirectory (h.store.cachePath id) = false →
      (¬ ∃ state base, keptAfter h.store turns id state base) →
      Gives (h.store.read id) fs none fs) ∧
    (¬ h.store.Nameable id ∨ fs.isDirectory (h.store.cachePath id) = true →
      (¬ ∃ state base, keptAfter h.store turns id state base) →
      ∃ path ∈ [h.store.metaPath id, h.store.cachePath id], ∃ cause,
        Fails (h.store.read id) fs (.io path cause) fs) ∧
    ∀ turn fs', h.Takes root fs turn fs' → turn.program ≠ id →
      fs'.isDirectory (h.store.cachePath id) = false →
      ∀ found, Gives (h.store.read id) fs found fs → Gives (h.store.read id) fs' found fs' := by
  have hAcc := hHistory.accounted hSuits
  refine ⟨⟨?_, ?_⟩, fun state base hKept => hAcc.read_of_kept hKept, ?_, ?_, ?_⟩
  · rintro ⟨artifact, hRead⟩
    exact hAcc.kept_of_read not_false hRead
  · rintro ⟨state, base, hKept⟩
    exact ⟨_, (hAcc.read_of_kept hKept).1⟩
  · intro hName hFree hNot
    exact hAcc.read_of_not_kept hName hFree fun hHas => hNot (Ledger.has_ofStates.mp hHas)
  · intro hWay hNot
    exact hAcc.fails_read_of_not_kept (fun hHas => hNot (Ledger.has_ofStates.mp hHas)) hWay
  · intro turn fs' hTakes hProgram hFree found hRead
    have hAcc' := hTakes.accounted hSuits hAcc
    have hSame : ∀ state base, keptAfter h.store (turns ++ [turn]) id state base ↔
        keptAfter h.store turns id state base := fun state base =>
      keptAfter_append_of_none (by simp [Turn.fullLaunch?, hProgram])
    by_cases hKept : ∃ state base, keptAfter h.store turns id state base
    · obtain ⟨state, base, hKept⟩ := hKept
      rw [hRead.unique (hAcc.read_of_kept hKept).1]
      exact (hAcc'.read_of_kept ((hSame state base).mpr hKept)).1
    · cases found with
      | some artifact => exact absurd (hAcc.kept_of_read not_false hRead) hKept
      | none =>
        have hName := hAcc.nameable_of_read (fun hHas => hKept (Ledger.has_ofStates.mp hHas)) hRead
        refine hAcc'.read_of_not_kept hName hFree fun hHas => hKept ?_
        obtain ⟨state, base, hKept'⟩ := Ledger.has_ofStates.mp hHas
        exact ⟨state, base, (hSame state base).mp hKept'⟩

/-! ## Small histories -/

section Turns

variable (h) in
def stepRun (engine : Engine) (id : ProgramId) (step : OpenStep) (fs : Files) :
    Except HarnessError StepReport × World (List Launch) :=
  (h.runStep engine.runner id step).run.run ⟨fs, []⟩

variable {engine : Engine} {step : OpenStep} {fs : Files}
  {r : Except HarnessError StepReport × World (List Launch)}

theorem noted_of_stepRun (hRun : h.stepRun engine id step fs = r) (hOk : r.1.isOk = true)
    (hDiffer : h.config.differ.external? = none) (hStep : step.log?.isSome = true) :
    engine.Noted r.2.engine := by
  subst hRun
  obtain ⟨report, hRun⟩ := Gives.exists_of_isOk hOk
  exact noted_of_runStep (w := ⟨fs, []⟩) (List.forall_mem_nil _) hDiffer hStep hRun

theorem takes_of_stepRun {answer : Command → Files → Outcome × Trace} {logs : Place}
    (hRun : h.stepRun engine id step fs = r) (hOk : r.1.isOk = true)
    (hEngine : engine = .tracing h.store root answer) (hLabel : '/' ∉ h.config.engineLabel.toList)
    (hDiffer : h.config.differ.external? = none) (hTime : h.now.Representable)
    (hStep : step.log? = some log) (hForeign : h.store.Foreign root fs log.number)
    (hLogs : fs.find h.config.logDir = .ok (logs, .directory))
    (hLeavable : ∀ l ∈ r.2.engine,
      h.store.Leavable root l.command l.before (answer l.command l.before).2) :
    h.Takes root fs ⟨step, id, h.now, engine, fs.read (h.corpus.sourcePath id), r.2.engine⟩ r.2.files := by
  have hNoted := noted_of_stepRun hRun hOk hDiffer (by rw [hStep]; rfl)
  subst hRun
  subst hEngine
  refine ⟨Gives.exists_of_isOk hOk, rfl, fun l hl => ?_, hTime, ⟨log, hStep, hForeign⟩, logs, hLogs⟩
  exact (hLeavable l hl).confined hLabel (hNoted.traced hl).2

/-- A full run that succeeds has its state kept. -/
theorem keptAfter_of_stepRun {answer : Command → Files → Outcome × Trace} (turns : List Turn)
    {state text : Bytes} (hRun : h.stepRun engine id (.full log) fs = r) (hOk : r.1.isOk = true)
    (hEngine : engine = .tracing h.store root answer) (hLabel : '/' ∉ h.config.engineLabel.toList)
    (hDiffer : h.config.differ.external? = none) (hOne : r.2.engine.length = 1)
    (hLeft : ∀ l ∈ r.2.engine, h.store.Leavable root l.command l.before (.state state) ∧
      (answer l.command l.before).2 = .state state ∧ l.outcome.exit = .exited 0)
    (hText : fs.read (h.corpus.sourcePath id) = .ok text) :
    keptAfter h.store (turns ++ [⟨.full log, id, h.now, engine, fs.read (h.corpus.sourcePath id),
      r.2.engine⟩]) id state (.compute text) := by
  have hNoted := noted_of_stepRun hRun hOk hDiffer rfl
  subst hEngine
  obtain ⟨l, hLaunch⟩ := List.length_eq_one_iff.mp hOne
  have hl : l ∈ r.2.engine := by
    rw [hLaunch]
    exact List.mem_cons_self
  obtain ⟨hLeavable, hTrace, hExit⟩ := hLeft l hl
  have hAfter := (hNoted.traced hl).2
  rw [hTrace] at hAfter
  refine (keptAfter_append_of_full rfl hLaunch).mpr (.inl ⟨rfl, hExit, ?_, text, hText, rfl⟩)
  exact (hLeavable.leaves_iff hLabel hAfter).mpr rfl

theorem not_keptAfter_of_failed (turns : List Turn) {now : Instant} {source : Except FileError Bytes}
    {launches : List Launch} (hOne : launches.length = 1)
    (hFailed : ∀ l ∈ launches, l.outcome.exit ≠ .exited 0) (state : Bytes) (base : Digest) :
    ¬ keptAfter h.store (turns ++ [⟨.full log, id, now, engine, source, launches⟩]) id state base := by
  obtain ⟨l, rfl⟩ := List.length_eq_one_iff.mp hOne
  intro hKept
  rcases (keptAfter_append_of_full rfl rfl).mp hKept with ⟨-, hSuccess, -⟩ | ⟨hOther, -⟩
  · exact hFailed l List.mem_cons_self hSuccess
  · exact hOther rfl

end Turns

/-- The standard configuration with another label and another engine. -/
def small (label : String) (argv : List String) : Harness :=
  ⟨{ Config.standard with engineLabel := label, engine := ⟨argv, argv⟩ }, "", ⟨0, 0⟩⟩

theorem suits_small {label : String} {argv : List String} (hLabel : '/' ∉ label.toList)
    (hArgv : stateFlag ∉ argv.tail) : (small label argv).Suits := ⟨hLabel, rfl, hArgv, hArgv⟩

theorem representable_zero : (Instant.mk 0 0).Representable := ⟨rfl, by decide⟩

def first : ProgramId := ⟨1, Nat.one_pos, ProgramId.one_bounded⟩

def second : ProgramId := ⟨2, Nat.two_pos, ProgramId.two_bounded⟩

def fourth : ProgramId := ⟨4, Nat.succ_pos 3, ProgramId.four_bounded⟩

/-- Two programs in two versions, none of which has a statement, and empty logs. -/
def twoFiles : Files :=
  ⟨[(["randjs"], .directory), (["randjs", "1.jse.js"], .file 0), (["randjs", "1.jse.diff.js"], .file 1),
    (["randjs", "4.jse.js"], .file 2), (["randjs", "4.jse.diff.js"], .file 3), (["results"], .directory),
    (["experiments"], .directory), (["experiments", "skipped.jsonl"], .file 4),
    (["experiments", "jse_base"], .file 5), (["experiments", "jse_diff_analysis"], .file 6)],
    [[], [10], [], [10], [], [], []]⟩

def twoFull : Log := ⟨Config.standard.logPath fullLog, 5, none⟩

theorem node?_twoFiles (name : String) (rest : List String) :
    twoFiles.node? (["results"] ++ name :: rest) = none := by
  simp [twoFiles, Files.node?, List.lookup_cons]

theorem find_twoFiles : twoFiles.find "results" = .ok (["results"], .directory) := rfl

theorem history_two (label : String) (argv : List String) :
    (small label argv).History ["results"] [] twoFiles :=
  .start find_twoFiles fun name rest _ => node?_twoFiles name rest

theorem foreign_two (s : CacheStore) : s.Foreign ["results"] twoFiles twoFull.number :=
  foreign_of_names (by decide) (by decide)

def bench : Harness := small "JSE" ["engine"]

/-- Leaves a state if it is asked for one, and fails on the first program. Otherwise only the slot is made. -/
def twoAnswer (command : Command) (_ : Files) : Outcome × Trace :=
  if stateFlag ∈ command.args then
    (⟨.exited (if "--file=randjs/1.jse.js" ∈ command.args then 1 else 0), .zero, "", ""⟩, .state [7])
  else (⟨.exited 0, .zero, "", ""⟩, .slot)

def twoEngine : Engine := .tracing bench.store ["results"] twoAnswer

def fourthRun : Except HarnessError StepReport × World (List Launch) :=
  bench.stepRun twoEngine fourth (.full twoFull) twoFiles

def firstRun : Except HarnessError StepReport × World (List Launch) :=
  bench.stepRun twoEngine first (.full twoFull) fourthRun.2.files

def fourthTurn : Turn :=
  ⟨.full twoFull, fourth, ⟨0, 0⟩, twoEngine, twoFiles.read (bench.corpus.sourcePath fourth),
    fourthRun.2.engine⟩

def firstTurn : Turn :=
  ⟨.full twoFull, first, ⟨0, 0⟩, twoEngine, fourthRun.2.files.read (bench.corpus.sourcePath first),
    firstRun.2.engine⟩

/-- The fourth program is run with success, and the first without. -/
theorem full_runs_two :
    (fourthRun.1.isOk = true ∧ fourthRun.2.engine.length = 1 ∧
      ∀ l ∈ fourthRun.2.engine, bench.store.Leavable ["results"] l.command l.before (.state [7]) ∧
        (twoAnswer l.command l.before).2 = .state [7] ∧ l.outcome.exit = .exited 0) ∧
    fourthRun.2.files.find "experiments" = .ok (["experiments"], .directory) ∧
    (twoFull.number < fourthRun.2.files.contents.length ∧
      ∀ e ∈ fourthRun.2.files.names, e.2 = .file twoFull.number →
        e.1.getLast? ≠ some blobName ∧ e.1.getLast? ≠ some metaName) ∧
    firstRun.1.isOk = true ∧ firstRun.2.engine.length = 1 ∧
      ∀ l ∈ firstRun.2.engine, bench.store.Leavable ["results"] l.command l.before (.state [7]) ∧
        (twoAnswer l.command l.before).2 = .state [7] ∧ l.outcome.exit = .exited 1 := by
  decide +kernel

theorem takes_fourth : bench.Takes ["results"] twoFiles fourthTurn fourthRun.2.files := by
  obtain ⟨⟨hOk, -, hLeft⟩, -⟩ := full_runs_two
  refine takes_of_stepRun (r := fourthRun) rfl hOk rfl (by decide) rfl representable_zero rfl (foreign_two _)
    rfl fun l hl => ?_
  obtain ⟨hLeavable, hTrace, -⟩ := hLeft l hl
  rwa [hTrace]

theorem takes_first : bench.Takes ["results"] fourthRun.2.files firstTurn firstRun.2.files := by
  obtain ⟨-, hLogs, ⟨hLess, hNames⟩, hOk, -, hLeft⟩ := full_runs_two
  refine takes_of_stepRun (r := firstRun) rfl hOk rfl (by decide) rfl representable_zero rfl
    (foreign_of_names hLess hNames) hLogs fun l hl => ?_
  obtain ⟨hLeavable, hTrace, -⟩ := hLeft l hl
  rwa [hTrace]

theorem history_fourth : bench.History ["results"] [fourthTurn] fourthRun.2.files :=
  (history_two "JSE" ["engine"]).turn takes_fourth

theorem history_both : bench.History ["results"] [fourthTurn, firstTurn] firstRun.2.files :=
  history_fourth.turn takes_first

theorem kept_fourth : keptAfter bench.store [fourthTurn] fourth [7] (.compute []) := by
  obtain ⟨⟨hOk, hOne, hLeft⟩, -⟩ := full_runs_two
  exact keptAfter_of_stepRun (r := fourthRun) [] rfl hOk rfl (by decide) rfl hOne hLeft rfl

theorem kept_both : keptAfter bench.store [fourthTurn, firstTurn] fourth [7] (.compute []) := by
  have hNone : firstTurn.fullLaunch? fourth = none := if_neg fun hSame => absurd hSame.2 (by decide)
  change keptAfter bench.store ([fourthTurn] ++ [firstTurn]) fourth [7] (.compute [])
  exact (keptAfter_append_of_none hNone).mpr kept_fourth

theorem not_kept_first (state : Bytes) (base : Digest) :
    ¬ keptAfter bench.store [fourthTurn, firstTurn] first state base := by
  obtain ⟨-, -, -, -, hOne, hLeft⟩ := full_runs_two
  refine not_keptAfter_of_failed [fourthTurn] hOne (fun l hl => ?_) state base
  rw [(hLeft l hl).2.2]
  simp

/-- Two programs after a full run each. That of the fourth program has left its state in the first slot, and
that of the first program has failed. -/
theorem stored_states_after_two_full_runs :
    bench.Suits ∧ bench.History ["results"] [fourthTurn, firstTurn] firstRun.2.files ∧
    (fourthTurn.launches.length = 1 ∧ ∀ l ∈ fourthTurn.launches,
      l.after.isFile (bench.store.engineBlob 1) = true ∧
        l.after.isFile (bench.store.cachePath fourth) = false) ∧
    Gives (bench.store.read fourth) firstRun.2.files
      (some (bench.store.artifact fourth [7] (some (.compute [])))) firstRun.2.files ∧
    firstRun.2.files.read (bench.store.cachePath fourth) = .ok [7] ∧
    Gives (bench.store.read first) firstRun.2.files none firstRun.2.files := by
  have hSuits : bench.Suits := suits_small (by decide) (by decide)
  obtain ⟨hLeft, hFree⟩ : (fourthTurn.launches.length = 1 ∧ ∀ l ∈ fourthTurn.launches,
      l.after.isFile (bench.store.engineBlob 1) = true ∧
        l.after.isFile (bench.store.cachePath fourth) = false) ∧
      firstRun.2.files.isDirectory (bench.store.cachePath first) = false := by
    decide +kernel
  obtain ⟨-, hKept, -⟩ := stored_states_follow_full_runs hSuits history_both fourth
  obtain ⟨-, -, hNone, -⟩ := stored_states_follow_full_runs hSuits history_both first
  obtain ⟨hRead, hState⟩ := hKept [7] (.compute []) kept_both
  refine ⟨hSuits, history_both, hLeft, hRead, hState, hNone (by decide) hFree ?_⟩
  rintro ⟨state, base, hKept⟩
  exact not_kept_first state base hKept

/-! ## Reads without a kept state -/

def leaving (argv : List String) (trace : Trace) : Engine :=
  .tracing (small "JSE" argv).store ["results"] fun _ _ => (⟨.exited 0, .zero, "", ""⟩, trace)

def timingRun (argv : List String) (trace : Trace) : Except HarnessError StepReport × World (List Launch) :=
  (small "JSE" argv).stepRun (leaving argv trace) first (.timing twoFull) twoFiles

def timingTurn (argv : List String) (trace : Trace) : Turn :=
  ⟨.timing twoFull, first, ⟨0, 0⟩, leaving argv trace,
    twoFiles.read ((small "JSE" argv).corpus.sourcePath first), (timingRun argv trace).2.engine⟩

theorem history_timing {argv : List String} {trace : Trace} (hOk : (timingRun argv trace).1.isOk = true)
    (hLeavable : ∀ l ∈ (timingRun argv trace).2.engine,
      (small "JSE" argv).store.Leavable ["results"] l.command l.before trace) :
    (small "JSE" argv).History ["results"] [timingTurn argv trace] (timingRun argv trace).2.files := by
  have hLabel : '/' ∉ "JSE".toList := by decide
  have hLogs : twoFiles.find "experiments" = .ok (["experiments"], .directory) := rfl
  have hTakes : (small "JSE" argv).Takes ["results"] twoFiles (timingTurn argv trace)
      (timingRun argv trace).2.files :=
    takes_of_stepRun (r := timingRun argv trace) rfl hOk rfl hLabel rfl representable_zero rfl
      (foreign_two _) hLogs hLeavable
  exact (history_two "JSE" argv).turn hTakes

theorem not_kept_start (s : CacheStore) (id : ProgramId) : ¬ ∃ state base, keptAfter s [] id state base := by
  rintro ⟨state, base, turn, l, hLast, -⟩
  cases hLast

theorem not_kept_timing (s : CacheStore) (argv : List String) (trace : Trace) (id : ProgramId) :
    ¬ ∃ state base, keptAfter s [timingTurn argv trace] id state base := by
  rw [← List.nil_append [timingTurn argv trace], keptAfter_append_of_quiet fun hFull => by cases hFull]
  exact not_kept_start s id

theorem read_overlong {label : String} {argv : List String} (id : ProgramId)
    (hLabel : '/' ∉ label.toList) (hLong : Files.isOverlong (label ++ toString id.number) = true) :
    twoFiles.isDirectory ((small label argv).store.cachePath id) = false ∧
      ∀ found, ¬ Gives ((small label argv).store.read id) twoFiles found twoFiles := by
  have hTidy : (small label argv).store.Tidy ["results"] twoFiles :=
    (tidy_of_empty hLabel find_twoFiles fun name rest _ => node?_twoFiles name rest).1
  have hUnreached : ∀ name, ¬ (small label argv).store.Reaches id.number name := fun name hReach =>
    Bool.false_ne_true (hReach.2.symm.trans hLong)
  constructor
  · obtain ⟨e, hFind, -⟩ := find_unreached hTidy entryName_blob (hUnreached _)
    rw [cachePath, engineBlob, Files.isDirectory, hFind]
  · intro found hGives
    rw [CacheStore.read, Gives.bind_iff] at hGives
    obtain ⟨_, _, hMeta, -⟩ := hGives
    exact hUnreached _ ((gives_readOptional_iff hTidy entryName_meta).mp hMeta).2.1

/-- Without a kept state a program is not always read as having none: a configured command may ask
for states by itself, an engine may leave a directory in the place of a state, and the name of a slot
may be too long for the system. -/
theorem programs_without_states_read_otherwise :
    (∃ (h : Harness) (root : Place) (turns : List Turn) (fs : Files) (id : ProgramId),
      h.History root turns fs ∧ h.config.differ.external? = none ∧
      (¬ ∃ state base, keptAfter h.store turns id state base) ∧
      ∃ artifact, Gives (h.store.read id) fs (some artifact) fs) ∧
    (∃ (h : Harness) (root : Place) (turns : List Turn) (fs : Files) (id : ProgramId),
      h.Suits ∧ h.History root turns fs ∧ h.store.Nameable id ∧
      (¬ ∃ state base, keptAfter h.store turns id state base) ∧
      ∀ found, ¬ Gives (h.store.read id) fs found fs) ∧
    ∃ (h : Harness) (root : Place) (turns : List Turn) (fs : Files) (id : ProgramId),
      h.Suits ∧ h.History root turns fs ∧ fs.isDirectory (h.store.cachePath id) = false ∧
      (¬ ∃ state base, keptAfter h.store turns id state base) ∧
      ∀ found, ¬ Gives (h.store.read id) fs found fs := by
  refine ⟨?_, ?_, ?_⟩
  · obtain ⟨hOk, hLeavable, hRead⟩ :
        (timingRun ["engine", "--writecache"] (.state [7])).1.isOk = true ∧
        (∀ l ∈ (timingRun ["engine", "--writecache"] (.state [7])).2.engine,
          (small "JSE" ["engine", "--writecache"]).store.Leavable ["results"] l.command l.before
            (.state [7])) ∧
        (((small "JSE" ["engine", "--writecache"]).store.read first).run.run
          (timingRun ["engine", "--writecache"] (.state [7])).2.files).1.toOption.join.isSome = true := by
      decide +kernel
    refine ⟨_, _, _, _, first, history_timing hOk hLeavable, rfl, not_kept_timing _ _ _ _, ?_⟩
    rcases hFound : (((small "JSE" ["engine", "--writecache"]).store.read first).run.run
        (timingRun ["engine", "--writecache"] (.state [7])).2.files).1 with e | (- | artifact)
    · rw [hFound] at hRead
      cases hRead
    · rw [hFound] at hRead
      cases hRead
    · exact ⟨artifact, (readOnly_read _ _).gives_of_eq hFound⟩
  · obtain ⟨hOk, hLeavable, hRead⟩ : (timingRun ["engine"] .folder).1.isOk = true ∧
        (∀ l ∈ (timingRun ["engine"] .folder).2.engine,
          (small "JSE" ["engine"]).store.Leavable ["results"] l.command l.before .folder) ∧
        (((small "JSE" ["engine"]).store.read first).run.run
          (timingRun ["engine"] .folder).2.files).1.isOk = false := by
      decide +kernel
    refine ⟨_, _, _, _, first, suits_small (by decide) (by decide), history_timing hOk hLeavable,
      by decide, not_kept_timing _ _ _ _, fun found hGives => ?_⟩
    exact Bool.false_ne_true (hRead.symm.trans hGives.isOk)
  · have hLabel : '/' ∉ (String.ofList (List.replicate 250 'J')).toList := by
      rw [String.toList_ofList]
      exact fun hMem => absurd (List.eq_of_mem_replicate hMem) (by decide)
    obtain ⟨hFree, hRead⟩ := read_overlong ⟨4294967295, by decide, by decide⟩ hLabel (by decide +kernel)
    exact ⟨_, _, _, _, _, suits_small hLabel (by decide), history_two _ ["engine"], hFree,
      not_kept_start _ _, hRead⟩

end Harness

end Reanalysis
