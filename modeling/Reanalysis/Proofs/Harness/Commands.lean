import Reanalysis.Harness.Calibration
import Reanalysis.Proofs.Duration
import Reanalysis.Proofs.Harness.Skipped

/-!
# Commands of a valid configuration

All that is run for a configuration is built from a request with its command lines and limits. When the
configuration is valid and the inputs are there, the only thing that can be wrong with a request is that
its limit is taken for zero, and that is so exactly when the limit is below half a nanosecond.
-/

namespace Reanalysis

open Files (Location)

/-! ## What validation ensures -/

theorem exists_of_bind_eq_ok {ε α β : Type} {x : Except ε α} {f : α → Except ε β} {b : β}
    (h : x >>= f = .ok b) : ∃ a, x = .ok a ∧ f a = .ok b := by
  cases x with
  | error e => cases h
  | ok a => exact ⟨a, rfl, h⟩

theorem forall_of_forM_eq_ok {ε α : Type} {check : α → Except ε Unit} {as : List α}
    (h : as.forM check = .ok ()) : ∀ a ∈ as, check a = .ok () := by
  induction as with
  | nil => simp
  | cons a as ih =>
    obtain ⟨_, hHead, hTail⟩ := exists_of_bind_eq_ok h
    exact List.forall_mem_cons.mpr ⟨hHead, ih hTail⟩

namespace Config

theorem ensure_eq_ok_iff {ok : Bool} {message : String} : ensure ok message = .ok () ↔ ok = true := by
  cases ok <;> simp [ensure]

theorem isGrace_of_isBudget {x : Float} (h : isBudget x = true) : isGrace x = true := by
  simp only [isBudget, isGrace, Bool.and_eq_true, decide_eq_true_eq] at h ⊢
  exact ⟨⟨h.1.1, Json.float_le_of_lt h.1.2⟩, h.2⟩

structure Sensible (c : Config) : Prop where
  full : isBudget c.timeouts.full = true
  targeted : isBudget c.timeouts.targeted = true
  grace : isGrace c.timeouts.grace = true
  budgets : ∀ b ∈ c.fuzzBudgets, isBudget b = true
  fullEngine : namesProgram c.engine.full = true
  targetedEngine : namesProgram c.engine.targeted = true
  fuzzer : namesProgram c.fuzzer = true
  differ : ∀ argv ∈ c.differ.external?, namesProgram argv = true

theorem sensible_of_validate {c : Config} (h : c.validate = .ok ()) : c.Sensible := by
  rw [validate] at h
  obtain ⟨_, hFull, h⟩ := exists_of_bind_eq_ok h
  obtain ⟨_, hTargeted, h⟩ := exists_of_bind_eq_ok h
  obtain ⟨_, hGrace, h⟩ := exists_of_bind_eq_ok h
  obtain ⟨_, hBudgets, h⟩ := exists_of_bind_eq_ok h
  obtain ⟨_, hFullEngine, h⟩ := exists_of_bind_eq_ok h
  obtain ⟨_, hTargetedEngine, h⟩ := exists_of_bind_eq_ok h
  obtain ⟨_, hFuzzer, h⟩ := exists_of_bind_eq_ok h
  obtain ⟨_, hDiffer, -⟩ := exists_of_bind_eq_ok h
  refine ⟨ensure_eq_ok_iff.mp hFull, ensure_eq_ok_iff.mp hTargeted, ensure_eq_ok_iff.mp hGrace,
    fun b hb => ensure_eq_ok_iff.mp (forall_of_forM_eq_ok hBudgets b hb), ensure_eq_ok_iff.mp hFullEngine, ensure_eq_ok_iff.mp hTargetedEngine,
    ensure_eq_ok_iff.mp hFuzzer, fun argv hArgv => ?_⟩
  cases hKind : c.differ with
  | named name =>
    rw [hKind] at hArgv
    cases hArgv
  | external line =>
    rw [hKind] at hArgv hDiffer
    cases hArgv
    exact ensure_eq_ok_iff.mp hDiffer

end Config

/-! ## Requests -/

/-- What a workflow or a calibration wants to have run. -/
inductive Request where
  | full (source : Location) (writeCache : Bool)
  | targeted (cache diff : Location)
  | cold (modified : Location)
  | fuzz (harness : Location) (budget : Float)
  | differ (argv : List String) (base modified result : Location)

namespace Request

def command (r : Request) (c : Config) (fs : Files) : Except CommandError Command :=
  match r with
  | .full source writeCache => Command.full fs c.engine.full source writeCache c.fullTimeout
  | .targeted cache diff => Command.targeted fs c.engine.targeted cache diff c.targetedTimeout
  | .cold modified => Command.cold fs c.engine.full modified c.targetedTimeout
  | .fuzz harness budget => Command.fuzz fs c.fuzzer harness budget c.grace
  | .differ argv base modified result =>
    Command.differ fs argv base modified result c.targetedTimeout

def inputs : Request → List Location
  | .full source _ => [source]
  | .targeted cache diff => [cache, diff]
  | .cold modified => [modified]
  | .fuzz harness _ => [harness]
  | .differ _ base modified _ => [base, modified]

/-- The request is for a budget or a differ of the configuration, if it is for one. -/
def Configured (c : Config) : Request → Prop
  | .fuzz _ budget => budget ∈ c.fuzzBudgets
  | .differ argv _ _ _ => argv ∈ c.differ.external?
  | _ => True

/-- The limit is at least half a nanosecond. A fuzzer has its budget and the grace. -/
def Noticeable (c : Config) : Request → Prop
  | .full _ _ => Duration.leastSeconds ≤ c.timeouts.full
  | .fuzz _ budget =>
    Duration.leastSeconds ≤ budget ∨ Duration.leastSeconds ≤ c.timeouts.grace
  | _ => Duration.leastSeconds ≤ c.timeouts.targeted

instance (c : Config) : (r : Request) → Decidable (r.Noticeable c)
  | .full _ _ => inferInstanceAs (Decidable (Duration.leastSeconds ≤ c.timeouts.full))
  | .targeted _ _ | .cold _ | .differ _ _ _ _ =>
    inferInstanceAs (Decidable (Duration.leastSeconds ≤ c.timeouts.targeted))
  | .fuzz _ budget => inferInstanceAs
    (Decidable (Duration.leastSeconds ≤ budget ∨ Duration.leastSeconds ≤ c.timeouts.grace))

end Request

theorem Command.build_eq (fs : Files) (purpose : String) {argv : List String} (args : List String)
    (inputs : List Location) {timeout : Duration} {noticeable : Prop} [Decidable noticeable]
    (hArgv : Config.namesProgram argv = true) (hLimit : timeout = .zero ↔ ¬ noticeable) :
    ∃ command, build fs purpose argv args inputs timeout =
      if noticeable then
        (inputs.find? (!fs.isFile ·)).elim (.ok command) fun p => .error (.missingInput p)
      else .error (.invalidTimeout Duration.zero.toSeconds) := by
  cases argv with
  | nil => cases hArgv
  | cons program rest =>
    have hProgram : Text.isBlankText program = false := by simpa [Config.namesProgram] using hArgv
    refine ⟨⟨program, rest ++ args, timeout⟩, ?_⟩
    by_cases hNoticeable : noticeable
    · have hSome : timeout ≠ .zero := fun hZero => hLimit.mp hZero hNoticeable
      simp only [build, hProgram, hSome, hNoticeable, if_true, if_false, Bool.false_eq_true]
      cases inputs.find? (!fs.isFile ·) <;> rfl
    · simp [build, hProgram, hLimit.mpr hNoticeable, hNoticeable]

theorem Duration.add_eq_zero_iff {a b : Duration} : a.add b = zero ↔ a = zero ∧ b = zero := by
  rcases a with ⟨m⟩
  rcases b with ⟨n⟩
  have hLongest : longest.nanos = 0x10000000000000000 * 1000000000 - 1 := rfl
  simp only [add, zero, mk.injEq]
  omega

namespace Request

variable {c : Config} {r : Request}

/-- A command is built unless its limit is too small to be noticed or an input is missing. -/
theorem command_eq (hSensible : c.Sensible) (hConfigured : r.Configured c) (fs : Files) :
    ∃ command, r.command c fs =
      if r.Noticeable c then
        (r.inputs.find? (!fs.isFile ·)).elim (.ok command) fun p => .error (.missingInput p)
      else .error (.invalidTimeout Duration.zero.toSeconds) := by
  have hFull := Duration.ofSeconds_eq_zero_iff (Config.isGrace_of_isBudget hSensible.full)
  have hTargeted := Duration.ofSeconds_eq_zero_iff (Config.isGrace_of_isBudget hSensible.targeted)
  cases r with
  | full source writeCache => exact Command.build_eq fs _ _ _ hSensible.fullEngine hFull
  | targeted cache diff => exact Command.build_eq fs _ _ _ hSensible.targetedEngine hTargeted
  | cold modified => exact Command.build_eq fs _ _ _ hSensible.fullEngine hTargeted
  | differ argv base modified result =>
    exact Command.build_eq fs _ _ _ (hSensible.differ argv hConfigured) hTargeted
  | fuzz harness budget =>
    have hBudget := hSensible.budgets budget hConfigured
    have hZero : (Duration.ofSeconds budget).add c.grace = .zero ↔
        ¬ (Duration.leastSeconds ≤ budget ∨ Duration.leastSeconds ≤ c.timeouts.grace) := by
      rw [Duration.add_eq_zero_iff, Config.grace, not_or,
        Duration.ofSeconds_eq_zero_iff (Config.isGrace_of_isBudget hBudget),
        Duration.ofSeconds_eq_zero_iff hSensible.grace]
    simp only [command, Command.fuzz, hBudget, Bool.not_true, Bool.false_eq_true, if_false]
    exact Command.build_eq fs _ _ _ hSensible.fuzzer hZero

theorem error_cases (hSensible : c.Sensible) (hConfigured : r.Configured c) {fs : Files}
    {e : CommandError} (h : r.command c fs = .error e) :
    (∃ p ∈ r.inputs, fs.isFile p = false ∧ e = .missingInput p) ∨
      ¬ r.Noticeable c ∧ e = .invalidTimeout Duration.zero.toSeconds := by
  obtain ⟨command, hCommand⟩ := command_eq hSensible hConfigured fs
  rw [h] at hCommand
  split at hCommand
  · cases hFound : r.inputs.find? (!fs.isFile ·) with
    | none =>
      rw [hFound] at hCommand
      cases hCommand
    | some p =>
      rw [hFound] at hCommand
      cases hCommand
      exact .inl ⟨p, List.mem_of_find?_eq_some hFound, by simpa using List.find?_some hFound, rfl⟩
  · rename_i hSmall
    cases hCommand
    exact .inr ⟨hSmall, rfl⟩

end Request

/-! ## Errors of batches and calibrations -/

/-- An error about a command is one that a request of the configuration runs into. -/
def HarnessError.Requested (c : Config) (e : HarnessError) : Prop :=
  ∀ cause, e = .command cause → ∃ (r : Request) (fs : Files), r.Configured c ∧ r.command c fs = .error cause

theorem HarnessError.requested_of_ne {c : Config} {e : HarnessError} (h : ∀ cause, e ≠ .command cause) :
    e.Requested c := fun cause hCause => absurd hCause (h cause)

namespace HarnessAction

open HarnessError

variable {σ α : Type} {c : Config}

theorem raises_onFiles {ε : Type} {wrap : ε → HarnessError} (hWrap : ∀ e cause, wrap e ≠ .command cause)
    (action : ExceptT ε (StateM Files) α) :
    Raises (Requested c) (onFiles wrap action : HarnessAction σ α) := by
  refine .get_bind fun w => ?_
  rcases action.run.run w.files with ⟨e | a, fs⟩
  · exact .bind (.lift _) fun _ => .throw (requested_of_ne (hWrap e))
  · exact .bind (.lift _) fun _ => .pure a

theorem raises_ofStore (action : StoreAction α) :
    Raises (Requested c) (ofStore action : HarnessAction σ α) :=
  raises_onFiles (fun _ _ h => by cases h) action

theorem raises_request {r : Request} (hConfigured : r.Configured c) (fs : Files) :
    Raises (Requested c) (ofCommand (r.command c fs) : HarnessAction σ Command) := by
  rcases hCommand : r.command c fs with e | command
  · refine .throw fun cause hCause => ?_
    cases hCause
    exact ⟨r, fs, hConfigured, hCommand⟩
  · exact .pure command

theorem raises_io (path : Location) (e : FileError) :
    Raises (Requested c) (throw (.io path e) : HarnessAction σ α) :=
  .throw (requested_of_ne fun _ h => by cases h)

theorem raises_files : Raises (Requested c) (files : HarnessAction σ Files) :=
  .get_bind fun _ => .pure _

theorem raises_makeDirectories (path dir : Location) :
    Raises (Requested c) (makeDirectories path dir : HarnessAction σ Unit) := by
  refine .get_bind fun w => ?_
  rcases w.files.makeDirectories dir with ⟨fs, _ | e⟩
  · exact .bind (.lift _) fun _ => .pure _
  · exact .bind (.lift _) fun _ => raises_io path e

theorem raises_change (path : Location) (f : Files → Except FileError Files) :
    Raises (Requested c) (change path f : HarnessAction σ Unit) := by
  refine .get_bind fun w => ?_
  split
  · exact .lift _
  · exact raises_io path _

end HarnessAction

namespace Harness

open HarnessAction HarnessError

variable {σ : Type} {h : Harness} {run : Runner σ}

section Parts

variable {c : Config}

theorem raises_execute (log : Log) (command : Command) (id : ProgramId) (mode : Mode)
    (budget : Option Float) : Raises (Requested c) (execute run log command id mode budget) :=
  .bind (.lift _) fun _ => .bind (raises_ofStore _) fun _ => .pure _

theorem raises_withSource (path : Location) {go : HarnessAction σ StepReport}
    (hGo : Raises (Requested c) go) : Raises (Requested c) (withSource path go) := by
  refine .bind raises_files fun fs => ?_
  split
  · exact hGo
  · exact .pure _

theorem raises_digestOf (path : Location) :
    Raises (Requested c) (digestOf path : HarnessAction σ Digest) := by
  refine .bind raises_files fun fs => ?_
  split
  · exact .pure _
  · exact raises_io path _

theorem raises_discards (s : CacheStore) (produced : List Nat) :
    Raises (Requested c)
      (produced.forM fun n => (ofStore (s.discardProduced n) : HarnessAction σ Unit)) :=
  .forM (fun _ => raises_ofStore _) produced

theorem raises_keepState (id : ProgramId) (base : Digest) (produced : List Nat) :
    Raises (Requested c) (h.keepState id base produced : HarnessAction σ Unit) := by
  rw [keepState]
  split
  · exact .bind (raises_discards _ _) fun _ => .bind (raises_ofStore _) fun _ => .pure _
  · exact .bind (raises_ofStore _) fun _ => .pure _

theorem raises_dropState (id : ProgramId) (produced : List Nat) :
    Raises (Requested c) (h.dropState id produced : HarnessAction σ Unit) :=
  .bind (raises_discards _ _) fun _ => .bind (raises_ofStore _) fun _ => .pure _

theorem raises_usableState (id : ProgramId) (base : Digest) :
    Raises (Requested c) (h.usableState id base : HarnessAction σ (Option CacheArtifact)) := by
  refine .get_bind fun w => ?_
  rcases (h.store.lookup id base).run.run w.files with ⟨e | lookup, fs⟩
  · refine .bind (.lift _) fun _ => ?_
    split
    · exact .pure _
    · exact .pure _
    · exact .throw (requested_of_ne fun _ hCause => by cases hCause)
  · exact .bind (.lift _) fun _ => .pure _

end Parts

/-! ### Steps -/

theorem raises_fullStep (log : Log) (id : ProgramId) :
    Raises (Requested h.config) (h.fullStep run log id) := by
  refine raises_withSource _ (.bind (raises_digestOf _) fun base => .bind raises_files fun fs =>
    .bind (raises_request (r := .full (h.corpus.sourcePath id) true) trivial fs) fun command =>
    .bind (raises_ofStore _) fun _ => .bind raises_files fun _ =>
    .bind (raises_execute _ _ _ _ _) ?_)
  rintro ⟨result, _⟩
  refine .bind raises_files fun _ => ?_
  split
  · exact .bind (raises_keepState _ _ _) fun _ => .pure _
  · exact .bind (raises_dropState _ _) fun _ => .pure _

theorem raises_timingStep (log : Log) (id : ProgramId) :
    Raises (Requested h.config) (h.timingStep run log id) :=
  raises_withSource _ (.bind raises_files fun fs =>
    .bind (raises_request (r := .full (h.corpus.sourcePath id) false) trivial fs) fun _ =>
    .bind (raises_execute _ _ _ _ _) fun _ => .pure _)

theorem raises_removed {α : Type} {c : Config} {launch : Unit → HarnessAction σ α} (result : Location)
    (hLaunch : ∀ u, Raises (Requested c) (launch u)) :
    Raises (Requested c) (do
      match (← files).removeFile result with
      | .ok fs => modify (fun w => { w with files := fs }) >>= launch
      | .error .notFound => launch ()
      | .error e => throw (.io result e) >>= launch) := by
  refine .bind raises_files fun fs => ?_
  split
  · exact .bind (.lift _) hLaunch
  · exact hLaunch ()
  · exact .bind (raises_io result _) hLaunch

theorem raises_runDiffer {argv : List String} (hArgv : argv ∈ h.config.differ.external?)
    (base modified result : Location) :
    Raises (Requested h.config) (h.runDiffer run argv base modified result) := by
  rw [runDiffer]
  extract_lets launch
  have hLaunch : ∀ u, Raises (Requested h.config) (launch u) := by
    intro u
    refine .bind raises_files fun fs =>
      .bind (raises_request (r := .differ argv base modified result) hArgv fs) fun command =>
      .bind (.lift _) fun outcome => ?_
    split
    · split
      · exact .bind raises_files fun fs => by split <;> exact .pure _
      · exact .pure _
    · exact .pure _
    · exact .pure _
  split
  · exact .bind (raises_makeDirectories _ _) fun _ => raises_removed result hLaunch
  · exact raises_removed result hLaunch

theorem raises_extractDiff (id : ProgramId) (base modified result : Location) :
    Raises (Requested h.config) (h.extractDiff run id base modified result) := by
  rw [extractDiff]
  split
  · rename_i argv hArgv
    exact raises_runDiffer hArgv base modified result
  · refine .get_bind fun w => ?_
    rcases (Diff.compute id base modified result).run.run w.files with ⟨e | artifact, fs⟩ <;>
      exact .bind (.lift _) fun _ => .pure _

theorem raises_targetedStep (log : Log) (id : ProgramId) :
    Raises (Requested h.config) (h.targetedStep run log id) := by
  refine raises_withSource _ (raises_withSource _ (.bind (raises_extractDiff _ _ _ _) fun message => ?_))
  cases message with
  | some message => exact .pure _
  | none =>
    refine .bind (raises_digestOf _) fun digest => .bind (raises_usableState _ _) fun found => ?_
    cases found with
    | some cache =>
      exact .bind raises_files fun fs =>
        .bind (raises_request (r := .targeted cache.path (h.config.diffPath id)) trivial fs) fun _ =>
        .bind (raises_execute _ _ _ _ _) fun _ => .pure _
    | none =>
      exact .bind raises_files fun fs =>
        .bind (raises_request (r := .cold (h.corpus.modifiedPath id)) trivial fs) fun _ =>
        .bind (raises_execute _ _ _ _ _) fun _ => .pure _

theorem raises_fuzzRun (log coverage : Log) (id : ProgramId) (harness : Location) {budget : Float}
    (hBudget : budget ∈ h.config.fuzzBudgets) :
    Raises (Requested h.config) (h.fuzzRun run log coverage id harness budget) := by
  refine .bind raises_files fun fs => .bind (raises_request (r := .fuzz harness budget) hBudget fs)
    fun _ => .bind (raises_execute _ _ _ _ _) ?_
  rintro ⟨result, stdout⟩
  dsimp only
  split
  · exact .pure _
  · split
    · exact .throw (requested_of_ne fun _ hCause => by cases hCause)
    · exact .bind (raises_ofStore _) fun _ => .pure _

theorem raises_fuzzBudgets (log coverage : Log) (id : ProgramId) (harness : Location)
    {budgets : List Float} (hBudgets : ∀ b ∈ budgets, b ∈ h.config.fuzzBudgets) :
    Raises (Requested h.config) (h.fuzzBudgets run log coverage id harness budgets) := by
  induction budgets with
  | nil => exact .pure _
  | cons budget budgets ih =>
    obtain ⟨hHead, hTail⟩ := List.forall_mem_cons.mp hBudgets
    exact .bind (raises_fuzzRun log coverage id harness hHead) fun _ => .bind (ih hTail) fun _ => .pure _

theorem raises_runStep (id : ProgramId) (step : OpenStep) :
    Raises (Requested h.config) (h.runStep run id step) := by
  cases step with
  | full log => exact raises_fullStep log id
  | timing log => exact raises_timingStep log id
  | targeted log => exact raises_targetedStep log id
  | fuzz log coverage =>
    exact raises_withSource _ (raises_fuzzBudgets log coverage id _ fun _ hb => hb)

theorem raises_runSteps (id : ProgramId) (steps : List OpenStep) :
    Raises (Requested h.config) (h.runSteps run id steps) := by
  induction steps with
  | nil => exact .pure _
  | cons step steps ih => exact .bind (raises_runStep id step) fun _ => .bind ih fun _ => .pure _

theorem raises_openStep (step : Step) :
    Raises (Requested h.config) (h.openStep step : HarnessAction σ OpenStep) := by
  cases step with
  | fuzz => exact .bind (raises_ofStore _) fun _ => .bind (raises_ofStore _) fun _ => .pure _
  | _ => exact .bind (raises_ofStore _) fun _ => .pure _

theorem raises_runWorkflow (workflow : Workflow) (ids : List ProgramId) :
    Raises (Requested h.config) (h.runWorkflow run workflow ids) :=
  .bind (raises_ofStore _) fun _ => .bind (.mapM raises_openStep _) fun steps =>
    .bind (.mapM (fun id => .bind (raises_runSteps id steps) fun _ => .pure _) ids) fun _ =>
    .bind (.forM (fun _ => .bind (raises_ofStore _) fun _ => .pure _) _) fun _ => .pure _

theorem raises_median (samples : Nat) (mode : Mode) (command : Command) :
    Raises (Requested h.config) (median run samples mode command) := by
  refine .bind (.lift _) fun times => ?_
  split
  · exact .pure _
  · exact .throw (requested_of_ne fun _ hCause => by cases hCause)

theorem raises_measure (scratch : Location) :
    Raises (Requested h.config) (h.measure run scratch) :=
  .bind (.forM (fun _ => .bind (raises_makeDirectories _ _) fun _ => raises_change _ _) _) fun _ =>
    .bind raises_files fun fs => .bind (raises_request (r := .full _ false) trivial fs) fun _ =>
    .bind (raises_request (r := .targeted _ _) trivial fs) fun _ =>
    .bind (raises_request (r := .cold _) trivial fs) fun _ =>
    .bind (raises_median _ _ _) fun _ => .bind (raises_median _ _ _) fun _ =>
    .bind (raises_median _ _ _) fun _ => .bind (raises_ofStore _) fun _ => .pure _

/-- What is done in the end is done in any case, and changes nothing about the result. -/
theorem run_tryFinally {ε α : Type} (x : ExceptT ε (StateM σ) α) (f : σ → σ) (w : σ) :
    (tryFinally x (modify f)).run.run w = ((x.run.run w).1, f (x.run.run w).2) := by
  rcases hx : x.run.run w with ⟨_ | _, w₁⟩ <;> change x w = _ at hx <;>
    simp [tryFinally, tryFinally', Functor.map, ExceptT.map, ExceptT.mk, bind, StateT.bind, hx, pure,
      StateT.pure, modify, modifyGet, MonadStateOf.modifyGet, monadLift, MonadLift.monadLift,
      ExceptT.lift, StateT.modifyGet, StateT.map, StateT.run, ExceptT.run]

theorem raises_calibrate (scratch : Location) :
    Raises (Requested h.config) (h.calibrate run scratch) := by
  intro w e w' hFails
  rw [Fails, calibrate, run_tryFinally, Prod.mk.injEq] at hFails
  exact raises_measure scratch w e _ (.of_fst hFails.1)

/-- With a valid configuration, a command whose inputs are there is built exactly if its limit is at
least half a nanosecond, and otherwise it is refused for its limit. Batches and calibrations break off
over a command only when an input is missing or when a limit is that small, and never because a command
line is empty. -/
theorem commands_built_unless_limit_vanishes (h : Harness) (hValid : h.config.validate = .ok ()) :
    (∀ (r : Request) (fs : Files), r.Configured h.config → (∀ p ∈ r.inputs, fs.isFile p = true) →
      (r.Noticeable h.config → ∃ command, r.command h.config fs = .ok command) ∧
      (¬ r.Noticeable h.config →
        r.command h.config fs = .error (.invalidTimeout Duration.zero.toSeconds))) ∧
    ∀ (σ : Type) (run : Runner σ) (w w' : World σ) (cause : CommandError),
      (∃ workflow ids, Fails (h.runWorkflow run workflow ids) w (.command cause) w') ∨
        (∃ scratch, Fails (h.calibrate run scratch) w (.command cause) w') →
      (∃ p, cause = .missingInput p) ∨
        cause = .invalidTimeout Duration.zero.toSeconds ∧
          ∃ r : Request, r.Configured h.config ∧ ¬ r.Noticeable h.config := by
  have hSensible := Config.sensible_of_validate hValid
  constructor
  · intro r fs hConfigured hInputs
    obtain ⟨command, hCommand⟩ := Request.command_eq hSensible hConfigured fs
    have hFound : r.inputs.find? (!fs.isFile ·) = none := by
      rw [List.find?_eq_none]
      intro p hp
      simp [hInputs p hp]
    rw [hCommand, hFound]
    exact ⟨fun hNoticeable => ⟨command, if_pos hNoticeable⟩, fun hSmall => if_neg hSmall⟩
  · intro σ run w w' cause hFails
    have hRequested : (HarnessError.command cause).Requested h.config := by
      rcases hFails with ⟨workflow, ids, hFails⟩ | ⟨scratch, hFails⟩
      · exact raises_runWorkflow workflow ids w _ w' hFails
      · exact raises_calibrate scratch w _ w' hFails
    obtain ⟨r, fs, hConfigured, hCommand⟩ := hRequested cause rfl
    rcases Request.error_cases hSensible hConfigured hCommand with ⟨p, -, -, rfl⟩ | ⟨hSmall, rfl⟩
    · exact .inl ⟨p, rfl⟩
    · exact .inr ⟨rfl, r, hConfigured, hSmall⟩

/-! ## Limits around half a nanosecond -/

def limited (seconds : Float) : Harness :=
  { bench with config :=
    { bench.config with timeouts := { bench.config.timeouts with full := seconds } } }

theorem least_limit_accepted :
    (limited 5e-10).config.validate = .ok () ∧
      ∃ command, (Request.full ((limited 5e-10).corpus.sourcePath present) true).command
        (limited 5e-10).config calm.files = .ok command := by
  obtain ⟨hValid, hSource, hNoticeable⟩ :
      (limited 5e-10).config.validate = .ok () ∧
      calm.files.isFile ((limited 5e-10).corpus.sourcePath present) = true ∧
      Duration.leastSeconds ≤ (limited 5e-10).config.timeouts.full := by
    decide +kernel
  exact ⟨hValid, ((commands_built_unless_limit_vanishes _ hValid).1 (.full _ true) calm.files trivial
    (List.forall_mem_singleton.mpr hSource)).1 hNoticeable⟩

/-- A limit below that is valid, but its commands are refused, and a batch breaks off. -/
theorem tiny_limit_refused :
    (limited 1e-10).config.validate = .ok () ∧
      calm.files.isFile ((limited 1e-10).corpus.sourcePath present) = true ∧
      (Request.full ((limited 1e-10).corpus.sourcePath present) false).command (limited 1e-10).config
        calm.files = .error (.invalidTimeout Duration.zero.toSeconds) ∧
      ∃ e w', Fails ((limited 1e-10).runWorkflow idle .timing [present]) calm e w' := by
  obtain ⟨hValid, hSource, hSmall, hBreaks⟩ :
      (limited 1e-10).config.validate = .ok () ∧
      calm.files.isFile ((limited 1e-10).corpus.sourcePath present) = true ∧
      ¬ Duration.leastSeconds ≤ (limited 1e-10).config.timeouts.full ∧
      (((limited 1e-10).runWorkflow idle .timing [present]).run.run calm).1.isOk = false := by
    decide +kernel
  obtain ⟨e, hFails⟩ := Fails.exists_of_isOk hBreaks
  have hConfigured : (Request.full ((limited 1e-10).corpus.sourcePath present) false).Configured
      (limited 1e-10).config := trivial
  obtain ⟨command, hCommand⟩ := Request.command_eq (Config.sensible_of_validate hValid) hConfigured
    calm.files
  exact ⟨hValid, hSource, hCommand.trans (if_neg hSmall), e, _, hFails⟩

end Harness

end Reanalysis
