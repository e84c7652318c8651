import Reanalysis.Proofs.Harness.Foreseen
import Reanalysis.Proofs.Harness.Reordering

/-!
# Both orders of full and targeted steps

A batch that takes each program through its full and its targeted step records the same runs as a batch of
full steps and one of targeted steps after it, and leaves the same states. What is asked of the commands and
of the engine is needed for that: the last theorem has an engine for each of three conditions that can tell
the orders apart.
-/

namespace Reanalysis

open Files (Location)
open CacheStore
open Command (stateFlag)

namespace Harness

variable {h h₂ h₃ : Harness} {engine engine' : Engine} {ids : List ProgramId} {root logs : Place}
  {fs fs₁ fs₂ fs₃ : Files} {launches launches₂ launches₃ : List Launch}
  {summary summary₂ summary₃ : BatchSummary}

/-- What a log holds when these runs have been added to what it held before. The directory of the logs need
not have been there. -/
def logWith (h : Harness) (fs : Files) (name : String) (runs : List Run) : Bytes :=
  ((fs.makeDirectories h.config.logDir).1.contents? (h.config.logPath name)).getD [] ++
    (runs.map fun r => r.toEntry.toJson).flatMap Log.line

/-- The directory for results is there or can be made, and no log, program or diff is in its way. -/
structure Prepared (h : Harness) (root : Place) (fs : Files) : Prop where
  sound : fs.Sound
  housed : h.store.Tidy root fs ∨ h.store.Vacant root fs
  free : ∀ dir name, dir ++ [name] <+: root → fs.node? (dir ++ [name]) ≠ some .directory → ¬ TakenName name

def Prepared.setting (hPrepared : h.Prepared root fs) (hSuits : h.Suits)
    (hLogs : (fs.makeDirectories h.config.logDir).1.Leads h.config.logDir logs) (ids : List ProgramId)
    (hHonours : h.store.Honours root launches) (hSteady : h.Steady fs launches) : Setting where
  harness := h
  root := root
  logs := logs
  start := (fs.makeDirectories h.config.logDir).1
  ids := ids
  launches := launches
  suits := hSuits
  sound := hPrepared.sound.makeDirectories _
  leads := hLogs
  housed := housed_makeDirectories hPrepared.housed _
  free := fun dir name hWay hMissing => hPrepared.free dir name hWay fun hThere =>
    hMissing ((Files.grows_makeDirectories _).node _ _ hThere)
  honours := hHonours
  steady := ⟨fs, hSteady⟩

theorem exists_leads_of_openLog {σ : Type} {name : String} {log : Log} {w w' : World σ}
    (hName : name ∈ skipLog :: runLogs) (hOpen : Gives (h.openLog name) w log w') :
    ∃ logs, (w.files.makeDirectories h.config.logDir).1.Leads h.config.logDir logs := by
  obtain ⟨fs, hAttach, rfl⟩ := HarnessAction.gives_ofStore_iff.mp hOpen
  have hFile := Log.openFile_of_attach (plainName_log hName) hAttach
  have hPlace : ∃ place, (w.files.makeDirectories h.config.logDir).1.place (h.config.logPath name) = .ok place := by
    rcases Files.openFile_cases hFile with ⟨-, place, hFound⟩ | ⟨place, hPlace, -⟩
    · exact ⟨place, (Files.place_of_find hFound).1⟩
    · exact ⟨place, hPlace⟩
  obtain ⟨place, hPlace⟩ := hPlace
  obtain ⟨logs, hLogs, -⟩ := Files.exists_leads (plainName_log hName) hPlace
  exact ⟨logs, hLogs⟩

/-- Each program may be taken through both steps at once, or all through the full step first: the logs get
the same runs in the same order, and the same states can be read. -/
theorem experiment2_agrees_with_full_then_targeted (hSuits : h.Suits) (hPrepared : h.Prepared root fs)
    (hConfig₂ : h₂.config = h.config) (hConfig₃ : h₃.config = h.config) (hTime : h.now.Representable)
    (hTime₂ : h₂.now.Representable)
    (hBoth : Gives (h.runWorkflow engine.runner .experiment2 ids) ⟨fs, []⟩ summary ⟨fs₁, launches⟩)
    (hFull : Gives (h₂.runWorkflow engine'.runner .full ids) ⟨fs, []⟩ summary₂ ⟨fs₂, launches₂⟩)
    (hTargeted : Gives (h₃.runWorkflow engine'.runner .targeted ids) ⟨fs₂, []⟩ summary₃ ⟨fs₃, launches₃⟩)
    (hHonours : h.store.Honours root (launches ++ (launches₂ ++ launches₃)))
    (hSteady : h.Steady fs (launches ++ (launches₂ ++ launches₃))) :
    (∀ name ∈ [fullLog, targetedLog], ∃ runs,
      fs₁.read (h.config.logPath name) = .ok (h.logWith fs name runs) ∧
      fs₃.read (h.config.logPath name) = .ok (h.logWith fs name runs)) ∧
    ∀ id, ((h.store.read id).run.run fs₁).1 = ((h.store.read id).run.run fs₃).1 := by
  obtain ⟨skips, w₀, -, -, -, -, hSkips, -⟩ := exists_of_runWorkflow (h := h) rfl hBoth
  obtain ⟨logs, hLogs⟩ := exists_leads_of_openLog (by decide) hSkips
  -- From the same start both orders come to the same stage.
  let S := hPrepared.setting hSuits hLogs ids hHonours hSteady
  have hNoted : ∀ l ∈ launches, l ∈ S.launches := fun l hl => List.mem_append_left _ hl
  have hNoted₂ : ∀ l ∈ launches₂, l ∈ S.launches := fun l hl =>
    List.mem_append_right _ (List.mem_append_left _ hl)
  have hNoted₃ : ∀ l ∈ launches₃, l ∈ S.launches := fun l hl =>
    List.mem_append_right _ (List.mem_append_right _ hl)
  obtain ⟨opened, hStage₁, ⟨n, hLogged⟩, n', hLogged'⟩ :=
    Setting.logged_experiment2 (S := S) (h := h) rfl hNoted rfl hTime hBoth
  obtain ⟨hStage₂, m, hLogged₂⟩ := Setting.logged_full (S := S) hConfig₂ hNoted₂ rfl hTime₂ hFull
  obtain ⟨opened₃, hStage₃, ⟨m₃, hLogged₃⟩, m', hLogged₃'⟩ :=
    Setting.logged_targeted (S := S) (w := ⟨fs₂, []⟩) hConfig₃ hNoted₃ hStage₂ hLogged₂ hTargeted
  refine ⟨List.forall_mem_cons.mpr ⟨?_, List.forall_mem_singleton.mpr ?_⟩, fun id => ?_⟩
  · exact ⟨_, hLogged.read, hLogged₃.read⟩
  · exact ⟨_, hLogged'.read, hLogged₃'.read⟩
  · obtain ⟨r, hRead, hRead'⟩ := hStage₁.concurs_read hStage₃ (fun _ hId => hId) id
    change ((S.store.read id).run.run fs₁).1 = ((S.store.read id).run.run fs₃).1
    rw [hRead, hRead']

end Harness

/-! ## Engines that leave traces -/

namespace CacheStore

variable {s : CacheStore} {root : Place} {answer : Command → Files → Outcome × Trace} {launches : List Launch}
  (hLabel : '/' ∉ s.label.toList) (hNoted : (Engine.tracing s root answer).Noted launches)
  (hLeavable : ∀ l ∈ launches, s.Leavable root l.command l.before (answer l.command l.before).2)

include hLabel hNoted hLeavable

theorem obeys_of_traced : ∀ l ∈ launches, s.Obeys root l := by
  intro l hl
  have hConfined := (hLeavable l hl).confined hLabel (hNoted.traced hl).2
  exact ⟨.inl hConfined, fun _ _ _ => (hConfined.tidy ((hLeavable l hl).tidy hLabel)).leads.directory⟩

theorem agrees_of_traced
    (hAgree : ∀ l ∈ launches, ∀ l' ∈ launches, l.Alike l' →
      answer l.command l.before = answer l'.command l'.before) :
    ∀ l ∈ launches, ∀ l' ∈ launches, l.Alike l' → l.Agrees s l' := by
  intro l hl l' hl' hAlike
  obtain ⟨hOutcome, hAfter⟩ := hNoted.traced hl
  obtain ⟨hOutcome', hAfter'⟩ := hNoted.traced hl'
  have hSame := hAgree l hl l' hl' hAlike
  refine ⟨by rw [hOutcome, hOutcome', hSame], by rw [hOutcome, hOutcome', hSame], fun state => ?_⟩
  rw [(hLeavable l hl).leaves_iff hLabel hAfter, (hLeavable l' hl').leaves_iff hLabel hAfter', hSame]

omit hLabel in
theorem sound_of_traced : ∀ l ∈ launches, l.after.Sound :=
  fun l hl => (hLeavable l hl).sound (hNoted.traced hl).2

/-- An engine that goes by what the command names, and leaves no directory in the place of a state. -/
theorem honours_of_traced (hTrace : ∀ l ∈ launches, (answer l.command l.before).2 ≠ .folder)
    (hAgree : ∀ l ∈ launches, ∀ l' ∈ launches, l.Alike l' →
      answer l.command l.before = answer l'.command l'.before) : s.Honours root launches where
  obeys := obeys_of_traced hLabel hNoted hLeavable
  sound := sound_of_traced hNoted hLeavable
  noFolder l hl _ hRoom := (hLeavable l hl).noFolder hLabel (hNoted.traced hl).2 (hTrace l hl) hRoom
  agrees := agrees_of_traced hLabel hNoted hLeavable hAgree

end CacheStore

/-! ## Two programs in both orders -/

namespace Harness

variable {h : Harness} {engine : Engine} {ids : List ProgramId} {fs : Files}

/-- Both orders come to their ends from the same files on. -/
def BothOrders (h : Harness) (engine : Engine) (ids : List ProgramId) (fs fs₁ fs₃ : Files)
    (launches launches' : List Launch) : Prop :=
  ∃ summary₁ summary₂ summary₃ fs₂ launches₂ launches₃, launches' = launches₂ ++ launches₃ ∧
    Gives (h.runWorkflow engine.runner .experiment2 ids) ⟨fs, []⟩ summary₁ ⟨fs₁, launches⟩ ∧
    Gives (h.runWorkflow engine.runner .full ids) ⟨fs, []⟩ summary₂ ⟨fs₂, launches₂⟩ ∧
    Gives (h.runWorkflow engine.runner .targeted ids) ⟨fs₂, []⟩ summary₃ ⟨fs₃, launches₃⟩

/-- These logs are there, and that of the skips. -/
def HasLogs (h : Harness) (full targeted : Log) (fs : Files) : Prop :=
  ∃ skips, ∀ w : World (List Launch), w.files = fs → Gives (h.openLog skipLog) w skips w ∧
    Gives (h.openLog fullLog) w full w ∧ Gives (h.openLog targetedLog) w targeted w

/-- Both orders can be foreseen. -/
theorem bothOrders_of_foreseen {base modified : String} {full targeted : Log}
    {both fulls targeteds : List Leg} {w₁ w₂ w₃ : World (List Launch)}
    (hDiffer : h.config.differ.external? = none) (hBase : Script.IsBlank base.toList)
    (hModified : Script.IsBlank modified.toList)
    (hBoth : h.Foreseen engine.runner full targeted base modified ⟨fs, []⟩ both w₁)
    (hFull : h.Foreseen engine.runner full targeted base modified ⟨fs, []⟩ fulls w₂)
    (hTargeted : h.Foreseen engine.runner full targeted base modified ⟨w₂.files, []⟩ targeteds w₃)
    (hLogs : h.HasLogs full targeted fs) (hLogs₂ : h.HasLogs full targeted w₂.files)
    (hPlan : both.map (Leg.plan full targeted) = schedule ids [.full full, .targeted targeted])
    (hPlan₂ : fulls.map (Leg.plan full targeted) = schedule ids [.full full])
    (hPlan₃ : targeteds.map (Leg.plan full targeted) = schedule ids [.targeted targeted]) :
    h.BothOrders engine ids fs w₁.files w₃.files w₁.engine (w₂.engine ++ w₃.engine) ∧
      engine.Noted (w₁.engine ++ (w₂.engine ++ w₃.engine)) := by
  obtain ⟨skips, hOpen⟩ := hLogs
  obtain ⟨hSkips, hFullLog, hTargetedLog⟩ := hOpen ⟨fs, []⟩ rfl
  obtain ⟨skips₂, hOpen₂⟩ := hLogs₂
  obtain ⟨hSkips₂, -, hTargetedLog₂⟩ := hOpen₂ ⟨w₂.files, []⟩ rfl
  have hStart : engine.Noted [] := List.forall_mem_nil _
  obtain ⟨⟨summary₁, hRun₁⟩, hNoted₁⟩ := hBoth.batch .experiment2 hDiffer hBase hModified hSkips
    (gives_openSteps_experiment2_iff.mpr ⟨full, targeted, _, hFullLog, hTargetedLog, rfl⟩) hPlan hStart
  obtain ⟨⟨summary₂, hRun₂⟩, hNoted₂⟩ := hFull.batch .full hDiffer hBase hModified hSkips
    (gives_openSteps_full_iff.mpr ⟨full, hFullLog, rfl⟩) hPlan₂ hStart
  obtain ⟨⟨summary₃, hRun₃⟩, hNoted₃⟩ := hTargeted.batch .targeted hDiffer hBase hModified hSkips₂
    (gives_openSteps_targeted_iff.mpr ⟨targeted, hTargetedLog₂, rfl⟩) hPlan₃ hStart
  refine ⟨⟨summary₁, summary₂, summary₃, w₂.files, w₂.engine, w₃.engine, rfl, hRun₁, hRun₂, hRun₃⟩, ?_⟩
  simp only [Engine.Noted, List.mem_append]
  rintro l (hl | hl | hl)
  · exact hNoted₁ l hl
  · exact hNoted₂ l hl
  · exact hNoted₃ l hl

def twoTargeted : Log := ⟨Config.standard.logPath targetedLog, 6, none⟩

theorem prepared_two (argv : List String) : (small "JSE" argv).Prepared ["results"] twoFiles where
  sound := .of_names (by decide) (by decide)
  housed := by
    have hLabel : '/' ∉ "JSE".toList := by decide
    exact .inl (tidy_of_names hLabel find_twoFiles (by decide))
  free dir name hWay hMissing := by
    rcases List.prefix_cons_iff.mp hWay with hNil | ⟨rest, hEq, hRest⟩
    · simp at hNil
    · rw [List.prefix_nil.mp hRest] at hEq
      exact absurd (by rw [hEq]; decide) hMissing

/-- The logs are where they were in the beginning. -/
def SameLogs (fs : Files) : Prop :=
  fs.find (Config.standard.logPath skipLog) = .ok (["experiments", skipLog], .file 4) ∧
  fs.find (Config.standard.logPath fullLog) = .ok (["experiments", fullLog], .file twoFull.number) ∧
  fs.find (Config.standard.logPath targetedLog) = .ok (["experiments", targetedLog], .file twoTargeted.number)

instance (fs : Files) : Decidable (SameLogs fs) := inferInstanceAs (Decidable (_ ∧ _))

theorem SameLogs.hasLogs (hSame : SameLogs fs) (argv : List String) :
    (small "JSE" argv).HasLogs twoFull twoTargeted fs := by
  obtain ⟨hSkips, hFull, hTargeted⟩ := hSame
  refine ⟨⟨Config.standard.logPath skipLog, 4, none⟩, ?_⟩
  rintro w rfl
  have hNames : skipLog ∈ skipLog :: runLogs ∧ fullLog ∈ skipLog :: runLogs ∧
      targetedLog ∈ skipLog :: runLogs := by decide
  exact ⟨gives_openLog_of_find hNames.1 hSkips, gives_openLog_of_find hNames.2.1 hFull,
    gives_openLog_of_find hNames.2.2 hTargeted⟩

section Two

variable (argv : List String) (answer : Command → Files → Outcome × Trace)
  (both fulls targeteds : List Leg)

def twoTracing : Engine := .tracing (small "JSE" argv).store ["results"] answer

def twoGoes (fs : Files) (legs : List Leg) : Bool :=
  (small "JSE" argv).goes (twoTracing argv answer).runner twoFull twoTargeted "" "\n" ⟨fs, []⟩ legs

def twoEnd (fs : Files) (legs : List Leg) : World (List Launch) :=
  legs.foldl ((small "JSE" argv).after (twoTracing argv answer).runner twoFull twoTargeted "" "\n") ⟨fs, []⟩

def twoLast : World (List Launch) := twoEnd argv answer (twoEnd argv answer twoFiles fulls).files targeteds

def twoLaunches : List Launch :=
  (twoEnd argv answer twoFiles both).engine ++
    ((twoEnd argv answer twoFiles fulls).engine ++ (twoLast argv answer fulls targeteds).engine)

/-- Both orders can be evaluated, and the engine keeps to its rooms and finds no file of its own name. -/
def TwoGo : Prop :=
  twoGoes argv answer twoFiles both = true ∧ twoGoes argv answer twoFiles fulls = true ∧
  twoGoes argv answer (twoEnd argv answer twoFiles fulls).files targeteds = true ∧
  SameLogs (twoEnd argv answer twoFiles fulls).files ∧
  ∀ l ∈ twoLaunches argv answer both fulls targeteds,
    (small "JSE" argv).store.Leavable ["results"] l.command l.before (answer l.command l.before).2 ∧
      l.before.contents? "engine" = none

instance : Decidable (TwoGo argv answer both fulls targeteds) := inferInstanceAs (Decidable (_ ∧ _))

end Two

section Two

variable {argv : List String} {answer : Command → Files → Outcome × Trace} {both fulls targeteds : List Leg}
  (hGo : TwoGo argv answer both fulls targeteds)

include hGo

theorem TwoGo.bothOrders (ids : List ProgramId)
    (hPlan : both.map (Leg.plan twoFull twoTargeted) = schedule ids [.full twoFull, .targeted twoTargeted])
    (hPlan₂ : fulls.map (Leg.plan twoFull twoTargeted) = schedule ids [.full twoFull])
    (hPlan₃ : targeteds.map (Leg.plan twoFull twoTargeted) = schedule ids [.targeted twoTargeted])
    (hWarms : (small "JSE" argv).Warms (twoTracing argv answer).runner twoFull twoTargeted "" "\n"
      ⟨twoFiles, []⟩ both)
    (hWarms₂ : (small "JSE" argv).Warms (twoTracing argv answer).runner twoFull twoTargeted "" "\n"
      ⟨twoFiles, []⟩ fulls)
    (hWarms₃ : (small "JSE" argv).Warms (twoTracing argv answer).runner twoFull twoTargeted "" "\n"
      ⟨(twoEnd argv answer twoFiles fulls).files, []⟩ targeteds) :
    (small "JSE" argv).BothOrders (twoTracing argv answer) ids twoFiles
        (twoEnd argv answer twoFiles both).files (twoLast argv answer fulls targeteds).files
        (twoEnd argv answer twoFiles both).engine
        ((twoEnd argv answer twoFiles fulls).engine ++ (twoLast argv answer fulls targeteds).engine) ∧
      (twoTracing argv answer).Noted (twoLaunches argv answer both fulls targeteds) := by
  obtain ⟨hGoes, hGoes₂, hGoes₃, hLogs, -⟩ := hGo
  have hBase : Script.IsBlank "".toList := List.all_eq_true.mp rfl
  have hModified : Script.IsBlank "\n".toList := List.all_eq_true.mp rfl
  have hStart : SameLogs twoFiles := ⟨rfl, rfl, rfl⟩
  exact bothOrders_of_foreseen rfl hBase hModified ⟨hGoes, hWarms, rfl⟩ ⟨hGoes₂, hWarms₂, rfl⟩
    ⟨hGoes₃, hWarms₃, rfl⟩ (hStart.hasLogs argv) (hLogs.hasLogs argv) hPlan hPlan₂ hPlan₃

theorem TwoGo.leavable : ∀ l ∈ twoLaunches argv answer both fulls targeteds,
    (small "JSE" argv).store.Leavable ["results"] l.command l.before (answer l.command l.before).2 := by
  obtain ⟨-, -, -, -, hAll⟩ := hGo
  exact fun l hl => (hAll l hl).1

theorem TwoGo.steady (hArgv : ∀ arg ∈ argv, ∀ p ∈ Command.fileOf? arg, p = "engine") :
    (small "JSE" argv).Steady twoFiles (twoLaunches argv answer both fulls targeteds) := by
  intro l hl arg hArg p hFile
  obtain ⟨-, -, -, -, hAll⟩ := hGo
  obtain rfl := hArgv arg ((List.mem_append.mp hArg).elim id id) p hFile
  exact (hAll l hl).2

end Two

/-- What the fourth program is run with on its changes. -/
def warmCommand : Command :=
  ⟨"engine", [] ++ ["--diff", Command.option "cache" (bench.store.cachePath fourth),
    Command.option "diffFile" (bench.config.diffPath fourth)], bench.config.targetedTimeout⟩

def warmBoth : List Leg :=
  [.full fourth, .targeted fourth (some warmCommand), .full first, .targeted first none]

def warmFulls : List Leg := [.full fourth, .full first]

def warmTargeteds : List Leg := [.targeted fourth (some warmCommand), .targeted first none]

/-- What has to be known of the files where the fourth program is run on its changes. -/
def IsReady (fs : Files) : Prop :=
  (∀ e ∈ fs.names, e.2 = .directory ∨ e.2 ∈ (List.range fs.contents.length).map .file) ∧
  (∀ e ∈ fs.names, ∀ e' ∈ fs.names, e.2 = e'.2 → e.2 = .directory ∨ e.1 = e'.1) ∧
  fs.find Config.standard.logDir = .ok (["experiments"], .directory) ∧ bench.Blank fourth "" "\n" fs

instance (fs : Files) : Decidable (IsReady fs) := inferInstanceAs (Decidable (_ ∧ _))

theorem warm_of_isReady {w : World (List Launch)} {ledger : Ledger} (hReady : IsReady w.files)
    (hAcc : bench.store.Accounted ["results"] ledger noLoose w.files)
    (hKept : ledger.keeps fourth [7] (.compute [])) :
    (Leg.targeted fourth (some warmCommand)).Warm bench w := by
  obtain ⟨hBounded, hApart, hLogs, hBlank⟩ := hReady
  obtain ⟨bytes, artifact, -, hComputed⟩ :=
    hBlank.computed (List.all_eq_true.mp rfl) (List.all_eq_true.mp rfl)
  have hNil : Text.encode "" = [] := by decide +kernel
  have hText := Files.read_of_readText hBlank.1
  rw [hNil] at hText
  rintro command hMem
  cases hMem
  exact gives_chooseRun_of_kept (.of_names hBounded hApart) (Files.leads_of_find hLogs) hAcc hKept hText
    hComputed rfl (by decide) (by decide)

def fourthFull : List String := ["--file=randjs/4.jse.js", "--writecache"]

def fourthWarm : List String :=
  ["--diff", "--cache=results/JSE4/cache", "--diffFile=experiments/diffs/4.diff"]

def firstFull : List String := ["--file=randjs/1.jse.js", "--writecache"]

def firstCold : List String := ["--file=randjs/1.jse.diff.js"]

theorem both_go : TwoGo ["engine"] twoAnswer warmBoth warmFulls warmTargeteds ∧
    IsReady fourthRun.2.files ∧ IsReady (twoEnd ["engine"] twoAnswer twoFiles warmFulls).files ∧
    (twoEnd ["engine"] twoAnswer twoFiles warmBoth).engine.map (·.command.args) =
      [fourthFull, fourthWarm, firstFull, firstCold] ∧
    ((twoEnd ["engine"] twoAnswer twoFiles warmFulls).engine ++
      (twoLast ["engine"] twoAnswer warmFulls warmTargeteds).engine).map (·.command.args) =
        [fourthFull, firstFull, fourthWarm, firstCold] := by
  decide +kernel

theorem warms_warmBoth :
    bench.Warms twoEngine.runner twoFull twoTargeted "" "\n" ⟨twoFiles, []⟩ warmBoth := by
  obtain ⟨-, hReady, -⟩ := both_go
  have hAcc := history_fourth.accounted (suits_small (by decide) (by decide))
  refine ⟨trivial, ?_, warms_of_cold (by decide)⟩
  exact warm_of_isReady (w := fourthRun.2) hReady hAcc kept_fourth

/-- After the full step for the first program the state of the fourth is still kept. -/
theorem exists_accounted_warmFulls : ∃ ledger,
    bench.store.Accounted ["results"] ledger noLoose (twoEnd ["engine"] twoAnswer twoFiles warmFulls).files ∧
      ledger.keeps fourth [7] (.compute []) := by
  obtain ⟨hGo, -⟩ := both_go
  obtain ⟨⟨hOk, -⟩, -, ⟨hLess, hNames⟩, -⟩ := full_runs_two
  have hAcc := history_fourth.accounted (suits_small (by decide) (by decide))
  have hNoted : twoEngine.Noted fourthRun.2.engine := noted_of_stepRun (r := fourthRun) rfl hOk rfl rfl
  obtain ⟨-, -, hGoes⟩ := goes_cons_iff.mp hGo.2.1
  obtain ⟨-, ⟨report, hStep, -⟩, -⟩ := goes_cons_iff.mp hGoes
  have hRun : Gives (bench.fullStep twoEngine.runner twoFull first) fourthRun.2 report
      (twoEnd ["engine"] twoAnswer twoFiles warmFulls) := hStep
  have hNoted' := noted_of_fullStep hNoted hRun
  refine accounted_of_other hAcc representable_zero (foreign_of_names hLess hNames) hRun ?_ (by decide)
    kept_fourth
  intro l hLast
  have hl : l ∈ (twoEnd ["engine"] twoAnswer twoFiles warmFulls).engine := by
    rw [hLast]
    exact List.mem_append_right _ List.mem_cons_self
  exact (hGo.leavable l (List.mem_append_right _ (List.mem_append_left _ hl))).confined (by decide)
    (hNoted'.traced hl).2

theorem warms_warmTargeteds {w : World (List Launch)} {ledger : Ledger} (hReady : IsReady w.files)
    (hAcc : bench.store.Accounted ["results"] ledger noLoose w.files)
    (hKept : ledger.keeps fourth [7] (.compute [])) :
    bench.Warms twoEngine.runner twoFull twoTargeted "" "\n" ⟨w.files, []⟩ warmTargeteds :=
  ⟨warm_of_isReady (w := ⟨w.files, []⟩) hReady hAcc hKept, warms_of_cold (by decide)⟩

theorem exists_bothOrders_two : ∃ fs₁ fs₃ launches launches',
    bench.BothOrders twoEngine [fourth, first] twoFiles fs₁ fs₃ launches launches' ∧
    bench.store.Honours ["results"] (launches ++ launches') ∧ bench.Steady twoFiles (launches ++ launches') ∧
    launches.map (·.command.args) = [fourthFull, fourthWarm, firstFull, firstCold] ∧
    launches'.map (·.command.args) = [fourthFull, firstFull, fourthWarm, firstCold] := by
  obtain ⟨hGo, -, hReady, hArgs, hArgs'⟩ := both_go
  obtain ⟨ledger, hAcc, hKept⟩ := exists_accounted_warmFulls
  obtain ⟨hOrders, hNoted⟩ := hGo.bothOrders [fourth, first] rfl rfl rfl warms_warmBoth
    (warms_of_cold (by decide)) (warms_warmTargeteds hReady hAcc hKept)
  have hHonours : bench.store.Honours ["results"]
      (twoLaunches ["engine"] twoAnswer warmBoth warmFulls warmTargeteds) := by
    refine honours_of_traced (by decide) hNoted hGo.leavable (fun l _ => ?_) fun l _ l' _ hAlike => ?_
    · rw [twoAnswer]
      split <;> simp
    · rw [twoAnswer, twoAnswer, hAlike.command]
  exact ⟨_, _, _, _, hOrders, hHonours, hGo.steady (by decide), hArgs, hArgs'⟩

/-- The fourth program is run on its state and its changes, and the first without a state. In one order the
full run of the first program comes between them, in the other before both. -/
theorem orders_agree_for_two :
    ∃ fs₁ fs₃ launches launches',
      bench.BothOrders twoEngine [fourth, first] twoFiles fs₁ fs₃ launches launches' ∧
      bench.store.Honours ["results"] (launches ++ launches') ∧
      bench.Steady twoFiles (launches ++ launches') ∧
      launches.map (·.command.args) = [fourthFull, fourthWarm, firstFull, firstCold] ∧
      launches'.map (·.command.args) = [fourthFull, firstFull, fourthWarm, firstCold] ∧
      (∀ name ∈ [fullLog, targetedLog], ∃ runs,
        fs₁.read (bench.config.logPath name) = .ok (bench.logWith twoFiles name runs) ∧
        fs₃.read (bench.config.logPath name) = .ok (bench.logWith twoFiles name runs)) ∧
      ∀ id, ((bench.store.read id).run.run fs₁).1 = ((bench.store.read id).run.run fs₃).1 := by
  obtain ⟨fs₁, fs₃, launches, launches', hOrders, hHonours, hSteady, hArgs, hArgs'⟩ := exists_bothOrders_two
  obtain ⟨summary₁, summary₂, summary₃, fs₂, launches₂, launches₃, rfl, hBoth, hFull, hTargeted⟩ := id hOrders
  obtain ⟨hLogs, hStates⟩ := experiment2_agrees_with_full_then_targeted (suits_small (by decide) (by decide))
    (prepared_two ["engine"]) rfl rfl representable_zero representable_zero hBoth hFull hTargeted hHonours
    hSteady
  exact ⟨fs₁, fs₃, launches, _, hOrders, hHonours, hSteady, hArgs, hArgs', hLogs, hStates⟩

/-! ## Orders that can be told apart -/

def coldBoth : List Leg := [.full first, .targeted first none, .full fourth, .targeted fourth none]

def coldFulls : List Leg := [.full first, .full fourth]

def coldTargeteds : List Leg := [.targeted first none, .targeted fourth none]

theorem TwoGo.cold {argv : List String} {answer : Command → Files → Outcome × Trace}
    (hGo : TwoGo argv answer coldBoth coldFulls coldTargeteds) :
    (small "JSE" argv).BothOrders (twoTracing argv answer) [first, fourth] twoFiles
        (twoEnd argv answer twoFiles coldBoth).files (twoLast argv answer coldFulls coldTargeteds).files
        (twoEnd argv answer twoFiles coldBoth).engine
        ((twoEnd argv answer twoFiles coldFulls).engine ++
          (twoLast argv answer coldFulls coldTargeteds).engine) ∧
      (twoTracing argv answer).Noted (twoLaunches argv answer coldBoth coldFulls coldTargeteds) := by
  refine hGo.bothOrders [first, fourth] rfl rfl rfl (warms_of_cold ?_) (warms_of_cold ?_)
    (warms_of_cold ?_) <;> decide

def watchedLog : Location := Config.standard.logPath targetedLog

/-- Succeeds when there are targeted runs already. -/
def watching (_ : Command) (fs : Files) : Outcome × Trace :=
  (⟨.exited (if (fs.contents? watchedLog).getD [] = [] then 1 else 0), .zero, "", ""⟩, .nothing)

/-- Leaves a state at every launch. -/
def saving (_ : Command) (_ : Files) : Outcome × Trace := (⟨.exited 1, .zero, "", ""⟩, .state [7])

/-- Leaves a directory in the place of a state that it is not asked for. -/
def cluttering (command : Command) (_ : Files) : Outcome × Trace :=
  (⟨.exited 1, .zero, "", ""⟩, if stateFlag ∈ command.args then .state [7] else .folder)

theorem cold_watching : TwoGo ["engine", watchedLog] watching coldBoth coldFulls coldTargeteds ∧
    (∀ l ∈ twoLaunches ["engine", watchedLog] watching coldBoth coldFulls coldTargeteds,
      watchedLog ∈ l.command.args) ∧
    (twoEnd ["engine", watchedLog] watching twoFiles coldBoth).files.read (Config.standard.logPath fullLog) ≠
      (twoLast ["engine", watchedLog] watching coldFulls coldTargeteds).files.read
        (Config.standard.logPath fullLog) := by
  decide +kernel

theorem cold_saving : TwoGo ["engine", "--writecache"] saving coldBoth coldFulls coldTargeteds ∧
    (((small "JSE" ["engine", "--writecache"]).store.read second).run.run
      (twoEnd ["engine", "--writecache"] saving twoFiles coldBoth).files).1.toOption.join.isSome = true ∧
    (((small "JSE" ["engine", "--writecache"]).store.read second).run.run
      (twoLast ["engine", "--writecache"] saving coldFulls coldTargeteds).files).1.toOption.join.isSome =
        false := by
  decide +kernel

theorem cold_cluttering : TwoGo ["engine"] cluttering coldBoth coldFulls coldTargeteds ∧
    ((bench.store.read second).run.run
      (twoEnd ["engine"] cluttering twoFiles coldBoth).files).1.isOk = false ∧
    ((bench.store.read second).run.run
      (twoLast ["engine"] cluttering coldFulls coldTargeteds).files).1.isOk = true := by
  decide +kernel

/-- The orders can be told apart by a command that names a log, by one that asks for states itself, and by
an engine that leaves a directory in the place of a state. -/
theorem orders_can_be_told_apart :
    (∃ (h : Harness) (root : Place) (engine : Engine) (ids : List ProgramId) (fs fs₁ fs₃ : Files)
      (launches launches' : List Launch), h.Suits ∧ h.Prepared root fs ∧ h.now.Representable ∧ ids.Nodup ∧
      h.BothOrders engine ids fs fs₁ fs₃ launches launches' ∧
      h.store.Honours root (launches ++ launches') ∧
      fs₁.read (h.config.logPath fullLog) ≠ fs₃.read (h.config.logPath fullLog)) ∧
    (∃ (h : Harness) (root : Place) (engine : Engine) (ids : List ProgramId) (fs fs₁ fs₃ : Files)
      (launches launches' : List Launch), '/' ∉ h.config.engineLabel.toList ∧
      h.config.differ.external? = none ∧ h.Prepared root fs ∧ h.now.Representable ∧ ids.Nodup ∧
      h.BothOrders engine ids fs fs₁ fs₃ launches launches' ∧
      h.store.Honours root (launches ++ launches') ∧ h.Steady fs (launches ++ launches') ∧
      ∃ id, ((h.store.read id).run.run fs₁).1 ≠ ((h.store.read id).run.run fs₃).1) ∧
    ∃ (h : Harness) (root : Place) (engine : Engine) (ids : List ProgramId) (fs fs₁ fs₃ : Files)
      (launches launches' : List Launch), h.Suits ∧ h.Prepared root fs ∧ h.now.Representable ∧ ids.Nodup ∧
      h.BothOrders engine ids fs fs₁ fs₃ launches launches' ∧
      ((∀ l ∈ launches ++ launches', h.store.Obeys root l) ∧ (∀ l ∈ launches ++ launches', l.after.Sound) ∧
        ∀ l ∈ launches ++ launches', ∀ l' ∈ launches ++ launches', l.Alike l' → l.Agrees h.store l') ∧
      h.Steady fs (launches ++ launches') ∧
      ∃ id, ((h.store.read id).run.run fs₁).1 ≠ ((h.store.read id).run.run fs₃).1 := by
  have hLabel : '/' ∉ "JSE".toList := by decide
  refine ⟨?_, ?_, ?_⟩
  · obtain ⟨hGo, hNames, hDiffer⟩ := cold_watching
    obtain ⟨hOrders, hNoted⟩ := hGo.cold
    refine ⟨_, _, _, _, _, _, _, _, _, suits_small hLabel (by decide), prepared_two _, representable_zero,
      by decide, hOrders, honours_of_traced hLabel hNoted hGo.leavable (fun _ _ => by simp [watching]) ?_,
      hDiffer⟩
    intro l hl l' hl' hAlike
    have hNamed : l.command.Names watchedLog :=
      ⟨watchedLog, List.mem_cons_of_mem _ (hNames l hl), by decide⟩
    rw [watching, watching, hAlike.contents _ hNamed]
  · obtain ⟨hGo, hThere, hGone⟩ := cold_saving
    obtain ⟨hOrders, hNoted⟩ := hGo.cold
    refine ⟨_, _, _, _, _, _, _, _, _, hLabel, rfl, prepared_two _, representable_zero, by decide, hOrders,
      honours_of_traced hLabel hNoted hGo.leavable (fun _ _ => by simp [saving]) (fun _ _ _ _ _ => rfl),
      hGo.steady (by decide), second, fun hSame => ?_⟩
    rw [hSame, hGone] at hThere
    cases hThere
  · obtain ⟨hGo, hFails, hEnds⟩ := cold_cluttering
    obtain ⟨hOrders, hNoted⟩ := hGo.cold
    refine ⟨_, _, _, _, _, _, _, _, _, suits_small hLabel (by decide), prepared_two _, representable_zero,
      by decide, hOrders, ⟨obeys_of_traced hLabel hNoted hGo.leavable, sound_of_traced hNoted hGo.leavable,
        agrees_of_traced hLabel hNoted hGo.leavable ?_⟩, hGo.steady (by decide), second, fun hSame => ?_⟩
    · intro l _ l' _ hAlike
      rw [cluttering, cluttering, hAlike.command]
    · change ((bench.store.read second).run.run _).1 = _ at hSame
      rw [hSame] at hFails
      cases hFails.symm.trans hEnds

end Harness

end Reanalysis
