import Reanalysis.Proofs.Harness.Quiet

/-!
# Courses

Several programs can be under way at once. What is done for one of them is cut into pieces here, so that
something can be done for the others between any two of them. A piece is the launch of a command whose
run goes to a log, a line that is written, or anything else. Without others in between, the pieces come
to what the steps are.
-/

namespace Reanalysis

open Files (Location)

/-- What is done for a program, piece by piece. -/
inductive Course (σ α : Type) : Type 1
  | done (a : α)
  | quiet {β : Type} (action : HarnessAction σ β) (next : β → Course σ α)
  | launch (log : Log) (command : Command) (id : ProgramId) (mode : Mode) (budget : Option Float)
      (next : Outcome → Course σ α)
  | record (log : Log) (result : Run) (next : Course σ α)
  | sample (coverage : Log) (value : Sample) (next : Course σ α)

namespace Course

open HarnessAction

variable {σ α β : Type}

def bind : Course σ α → (α → Course σ β) → Course σ β
  | .done a, f => f a
  | .quiet action next, f => .quiet action fun b => (next b).bind f
  | .launch log command id mode budget next, f =>
    .launch log command id mode budget fun o => (next o).bind f
  | .record log result next, f => .record log result (next.bind f)
  | .sample coverage value next, f => .sample coverage value (next.bind f)

instance : Monad (Course σ) where
  pure := .done
  bind := bind

def lift (action : HarnessAction σ α) : Course σ α := .quiet action .done

/-- All pieces, one right after the other. -/
def act (run : Runner σ) : Course σ α → HarnessAction σ α
  | .done a => return a
  | .quiet action next => do (next (← action)).act run
  | .launch _ command _ _ _ next => do (next (← run command)).act run
  | .record log result next => do
    let _ ← ofStore (log.append result.toEntry.toJson)
    next.act run
  | .sample coverage value next => do
    let _ ← ofStore (coverage.append value.toJson)
    next.act run

section Act

variable (run : Runner σ)

@[simp] theorem act_pure (a : α) : (pure a : Course σ α).act run = pure a := rfl

@[simp] theorem act_bind (c : Course σ α) (f : α → Course σ β) :
    (c >>= f).act run = c.act run >>= fun a => (f a).act run := by
  induction c with
  | done a => rfl
  | quiet action next ih =>
    refine Eq.trans ?_ (bind_assoc (m := HarnessAction σ) _ _ _).symm
    exact bind_congr ih
  | launch log command id mode budget next ih =>
    refine Eq.trans ?_ (bind_assoc (m := HarnessAction σ) _ _ _).symm
    exact bind_congr ih
  | record log result next ih =>
    refine Eq.trans ?_ (bind_assoc (m := HarnessAction σ) _ _ _).symm
    exact bind_congr fun _ => ih
  | sample coverage value next ih =>
    refine Eq.trans ?_ (bind_assoc (m := HarnessAction σ) _ _ _).symm
    exact bind_congr fun _ => ih

@[simp] theorem act_lift (action : HarnessAction σ α) : (lift action).act run = action :=
  bind_pure action

@[simp] theorem act_ite (p : Prop) [Decidable p] (c d : Course σ α) :
    (if p then c else d).act run = if p then c.act run else d.act run :=
  apply_ite (act run) p c d

end Act

/-! ## The steps -/

def execute (log : Log) (command : Command) (id : ProgramId) (mode : Mode) (budget : Option Float) :
    Course σ (Run × String) :=
  .launch log command id mode budget fun outcome =>
    .record log (outcome.toRun id mode budget) (.done (outcome.toRun id mode budget, outcome.stdout))

def withSource (path : Location) (go : Course σ StepReport) : Course σ StepReport := do
  if (← lift files).isFile path then go else return .ofSkip (.missingSource path)

@[simp] theorem act_execute (run : Runner σ) (log : Log) (command : Command) (id : ProgramId)
    (mode : Mode) (budget : Option Float) :
    (execute log command id mode budget).act run = Harness.execute run log command id mode budget := rfl

@[simp] theorem act_withSource (run : Runner σ) (path : Location) (go : Course σ StepReport) :
    (withSource path go).act run = Harness.withSource path (go.act run) := by
  simp only [withSource, act_bind, act_lift, act_ite, act_pure]
  rfl

variable (h : Harness)

def full (log : Log) (id : ProgramId) : Course σ StepReport :=
  let source := h.corpus.sourcePath id
  withSource source do
    let base ← lift (Harness.digestOf source)
    let command ← lift
      (do ofCommand (Command.full (← files) h.config.engine.full source true h.config.fullTimeout))
    let _ ← lift (ofStore (h.store.discard id))
    let before := h.store.engineDirs (← lift files)
    let (result, _) ← execute log command id .full none
    let produced := h.store.producedSince (← lift files) before
    if result.isSuccess then lift (h.keepState id base produced) else lift (h.dropState id produced)
    return .ofRun result

theorem act_full (run : Runner σ) (log : Log) (id : ProgramId) :
    (full h log id).act run = h.fullStep run log id := by
  simp only [full, act_withSource, act_bind, act_lift, act_execute, act_ite, act_pure]
  simp only [Harness.fullStep, bind_assoc]

def timing (log : Log) (id : ProgramId) : Course σ StepReport :=
  let source := h.corpus.sourcePath id
  withSource source do
    let command ← lift
      (do ofCommand (Command.full (← files) h.config.engine.full source false h.config.fullTimeout))
    let (result, _) ← execute log command id .full none
    return .ofRun result

theorem act_timing (run : Runner σ) (log : Log) (id : ProgramId) :
    (timing h log id).act run = h.timingStep run log id := by
  simp only [timing, act_withSource, act_bind, act_lift, act_execute, act_pure]
  simp only [Harness.timingStep, bind_assoc]

def makeParent (path : Location) : HarnessAction σ Unit :=
  match Files.parent? path with
  | some dir => makeDirectories dir dir
  | none => return

def removeLeft (path : Location) : HarnessAction σ Unit := do
  match (← files).removeFile path with
  | .ok fs => modify fun w => { w with files := fs }
  | .error .notFound => pure ()
  | .error e => throw (.io path e)

/-- What went wrong with a program that should have written the changes, if anything did. -/
def complaint (result : Location) (outcome : Outcome) : HarnessAction σ (Option String) := do
  match outcome.exit with
  | .exited code =>
    if code = 0 then
      if (← files).isFile result then return none else return some "differ wrote no result"
    else return some s!"differ exited with {code}"
  | .timedOut => return some "differ timed out"
  | .launchFailed message => return some message

/-- A program that writes the changes runs while other programs are under way. -/
def external (run : Runner σ) (argv : List String) (base modified result : Location) :
    Course σ (Option String) := do
  lift (makeParent result)
  lift (removeLeft result)
  let command ← lift (do
    ofCommand (Command.differ (← files) argv base modified result h.config.targetedTimeout))
  let outcome ← lift (liftM (run command))
  lift (complaint result outcome)

theorem act_external (run : Runner σ) (argv : List String) (base modified result : Location) :
    (external h run argv base modified result).act run =
      h.runDiffer run argv base modified result := by
  simp only [external, act_bind, act_lift, makeParent, removeLeft, bind_assoc]
  rw [Harness.runDiffer]
  cases Files.parent? result with
  | some dir =>
    refine bind_congr fun _ => bind_congr fun fs => ?_
    rcases fs.removeFile result with e | fs
    · cases e <;> rfl
    · rfl
  | none =>
    dsimp only
    rw [pure_bind]
    refine bind_congr fun fs => ?_
    rcases fs.removeFile result with e | fs
    · cases e <;> rfl
    · rfl

def differ (run : Runner σ) (id : ProgramId) (base modified result : Location) :
    Course σ (Option String) :=
  match h.config.differ.external? with
  | some argv => external h run argv base modified result
  | none => lift (h.extractDiff run id base modified result)

def targeted (run : Runner σ) (log : Log) (id : ProgramId) : Course σ StepReport :=
  let base := h.corpus.sourcePath id
  let modified := h.corpus.modifiedPath id
  let diff := h.config.diffPath id
  withSource base <| withSource modified do
    match ← differ h run id base modified diff with
    | some message => return .ofSkip (.diffFailed message)
    | none =>
      let digest ← lift (Harness.digestOf base)
      let timeout := h.config.targetedTimeout
      match ← lift (h.usableState id digest) with
      | some cache =>
        let command ← lift (do
          ofCommand (Command.targeted (← files) h.config.engine.targeted cache.path diff timeout))
        let (result, _) ← execute log command id .targeted none
        return .ofRun result
      | none =>
        let command ← lift
          (do ofCommand (Command.cold (← files) h.config.engine.full modified timeout))
        let (result, _) ← execute log command id .cold none
        return .ofRun result

theorem act_differ (run : Runner σ) (id : ProgramId) (base modified result : Location) :
    (differ h run id base modified result).act run = h.extractDiff run id base modified result := by
  rw [differ]
  cases hDiffer : h.config.differ.external? with
  | some argv =>
    rw [Harness.extractDiff, hDiffer]
    exact act_external h run argv base modified result
  | none => exact act_lift run _

theorem act_targeted (run : Runner σ) (log : Log) (id : ProgramId) :
    (targeted h run log id).act run = h.targetedStep run log id := by
  simp only [targeted, act_withSource, act_bind, act_differ]
  rw [Harness.targetedStep]
  congr 2
  refine bind_congr fun message => ?_
  cases message with
  | some message => rfl
  | none =>
    simp only [act_bind, act_lift]
    refine bind_congr fun digest => bind_congr fun found => ?_
    cases found with
    | some cache => simp only [act_bind, act_lift, act_execute, act_pure, bind_assoc]
    | none => simp only [act_bind, act_lift, act_execute, act_pure, bind_assoc]

def fuzzOnce (log coverage : Log) (id : ProgramId) (harness : Location) (budget : Float) :
    Course σ StepReport := do
  let command ← lift
    (do ofCommand (Command.fuzz (← files) h.config.fuzzer harness budget h.config.grace))
  let (result, stdout) ← execute log command id .fuzz (some budget)
  match BranchReport.largest? stdout with
  | none => return .ofRun result
  | some reached =>
    match Sample.validate ⟨id, budget, reached⟩ with
    | .error e => lift (throw (.store (.record e)))
    | .ok value => .sample coverage value (.done { StepReport.ofRun result with samples := 1 })

theorem act_fuzzOnce (run : Runner σ) (log coverage : Log) (id : ProgramId) (harness : Location)
    (budget : Float) :
    (fuzzOnce h log coverage id harness budget).act run =
      h.fuzzRun run log coverage id harness budget := by
  simp only [fuzzOnce, Harness.fuzzRun, act_bind, act_lift, act_execute, bind_assoc]
  refine bind_congr fun fs => bind_congr fun command => bind_congr fun executed => ?_
  rcases executed with ⟨result, stdout⟩
  dsimp only
  cases BranchReport.largest? stdout with
  | none => rfl
  | some reached =>
    dsimp only
    cases Sample.validate ⟨id, budget, reached⟩ with
    | error e => rfl
    | ok value => rfl

def fuzzAll (log coverage : Log) (id : ProgramId) (harness : Location) :
    List Float → Course σ StepReport
  | [] => return .empty
  | budget :: rest => do
    let first ← fuzzOnce h log coverage id harness budget
    return first.append (← fuzzAll log coverage id harness rest)

theorem act_fuzzAll (run : Runner σ) (log coverage : Log) (id : ProgramId) (harness : Location)
    (budgets : List Float) :
    (fuzzAll h log coverage id harness budgets).act run =
      h.fuzzBudgets run log coverage id harness budgets := by
  induction budgets with
  | nil => rfl
  | cons budget rest ih =>
    simp only [fuzzAll, Harness.fuzzBudgets, act_bind, act_fuzzOnce, act_pure, ih]

def step (run : Runner σ) (id : ProgramId) : OpenStep → Course σ StepReport
  | .full log => full h log id
  | .timing log => timing h log id
  | .targeted log => targeted h run log id
  | .fuzz log coverage =>
    withSource (h.corpus.harnessPath id)
      (fuzzAll h log coverage id (h.corpus.harnessPath id) h.config.fuzzBudgets)

theorem act_step (run : Runner σ) (id : ProgramId) (s : OpenStep) :
    (step h run id s).act run = h.runStep run id s := by
  cases s with
  | full log => exact act_full h run log id
  | timing log => exact act_timing h run log id
  | targeted log => exact act_targeted h run log id
  | fuzz log coverage =>
    rw [step, act_withSource, act_fuzzAll]
    rfl

def steps (run : Runner σ) (id : ProgramId) : List OpenStep → Course σ StepReport
  | [] => return .empty
  | s :: rest => do
    let first ← step h run id s
    return first.append (← steps run id rest)

theorem act_steps (run : Runner σ) (id : ProgramId) (ss : List OpenStep) :
    (steps h run id ss).act run = h.runSteps run id ss := by
  induction ss with
  | nil => rfl
  | cons s rest ih => simp only [steps, Harness.runSteps, act_bind, act_step, act_pure, ih]

/-! ## Files that courses leave alone -/

/-- Only lines that the course writes can change a file at the location. -/
def Keeps (path : Location) : Course σ α → Prop
  | .done _ => True
  | .quiet action next => (∀ number, Sparing World.files path number action) ∧ ∀ b, (next b).Keeps path
  | .launch _ _ _ _ _ next => ∀ o, (next o).Keeps path
  | .record _ _ next => next.Keeps path
  | .sample _ _ next => next.Keeps path

theorem sparing_removeLeft {path result : Location} {number : Nat} (hResult : Files.Apart path result) :
    Sparing World.files path number (removeLeft result : HarnessAction σ Unit) := by
  refine Within.get_bind fun w => ?_
  cases hRemoved : w.files.removeFile result with
  | ok fs => exact Files.spares_removeFile hResult hRemoved
  | error e => cases e <;> exact .refl _ _ _

namespace Keeps

open Harness

variable {path : Location}

theorem pure (a : α) : (Pure.pure a : Course σ α).Keeps path := trivial

theorem bind {c : Course σ α} {f : α → Course σ β} (hc : c.Keeps path) (hf : ∀ a, (f a).Keeps path) :
    (c >>= f).Keeps path := by
  induction c with
  | done a => exact hf a
  | quiet action next ih => exact ⟨hc.1, fun b => ih b (hc.2 b)⟩
  | launch log command id mode budget next ih => exact fun o => ih o (hc o)
  | record log result next ih => exact ih hc
  | sample coverage value next ih => exact ih hc

theorem lift {action : HarnessAction σ α} (h : ∀ number, Sparing World.files path number action) :
    (Course.lift action).Keeps path := ⟨h, fun _ => trivial⟩

theorem command {x : Files → Except CommandError α} :
    (Course.lift (do ofCommand (x (← files))) : Course σ α).Keeps path :=
  lift fun _ => .bind sparing_files fun _ => sparing_ofCommand _

theorem execute (log : Log) (command : Command) (id : ProgramId) (mode : Mode)
    (budget : Option Float) : (execute log command id mode budget : Course σ _).Keeps path :=
  fun _ => trivial

theorem withSource (p : Location) {go : Course σ StepReport} (hGo : go.Keeps path) :
    (withSource p go).Keeps path := by
  refine bind (lift fun _ => sparing_files) fun fs => ?_
  split
  · exact hGo
  · exact pure _

variable {h} {run : Runner σ} (hPath : Reserved path) (hRun : run.LeavesAlone path)

include hPath hRun

theorem differ (id : ProgramId) (base modified dir : Location) :
    (differ h run id base modified (Files.join dir (id.render ++ ".diff"))).Keeps path := by
  rw [Course.differ]
  split
  · refine bind (lift fun _ => ?_) fun _ => bind (lift fun _ => sparing_removeLeft (hPath.diff _ _))
      fun _ => bind command fun c => bind (lift fun _ => sparing_run hRun c) fun outcome =>
      lift fun _ => ?_
    · rw [makeParent]
      split
      · exact sparing_makeDirectories _ _
      · exact .pure _
    · rw [complaint]
      split
      · split
        · exact .bind sparing_files fun fs => by split <;> exact .pure _
        · exact .pure _
      · exact .pure _
      · exact .pure _
  · exact lift fun _ => sparing_extractDiff hPath hRun _ _ _

theorem step (id : ProgramId) (s : OpenStep) : (step h run id s).Keeps path := by
  cases s with
  | full log =>
    refine withSource _ (bind (lift fun _ => sparing_digestOf _) fun base => bind command fun c =>
      bind (lift fun _ => sparing_ofStore (h.store.sparing_discard hPath id)) fun _ =>
      bind (lift fun _ => sparing_files) fun _ => bind (execute _ _ _ _ _) ?_)
    rintro ⟨result, _⟩
    refine bind (lift fun _ => sparing_files) fun _ => ?_
    dsimp only
    split
    · exact bind (lift fun _ => sparing_keepState hPath _ _) fun _ => pure _
    · exact bind (lift fun _ => sparing_dropState hPath _) fun _ => pure _
  | timing log => exact withSource _ (bind command fun c => bind (execute _ _ _ _ _) fun _ => pure _)
  | targeted log =>
    refine withSource _ (withSource _ (bind (differ hPath hRun _ _ _ _) fun message => ?_))
    cases message with
    | some message => exact pure _
    | none =>
      refine bind (lift fun _ => sparing_digestOf _) fun digest =>
        bind (lift fun _ => sparing_usableState digest) fun found => ?_
      cases found with
      | some cache => exact bind command fun c => bind (execute _ _ _ _ _) fun _ => pure _
      | none => exact bind command fun c => bind (execute _ _ _ _ _) fun _ => pure _
  | fuzz log coverage =>
    refine withSource _ ?_
    generalize h.config.fuzzBudgets = budgets
    induction budgets with
    | nil => exact pure _
    | cons budget rest ih =>
      refine bind (bind command fun c => bind (execute _ _ _ _ _) ?_) fun _ => bind ih fun _ => pure _
      rintro ⟨result, stdout⟩
      dsimp only
      split
      · exact pure _
      · split
        · exact lift fun _ => .throw _
        · trivial

theorem steps (id : ProgramId) (ss : List OpenStep) : (steps h run id ss).Keeps path := by
  induction ss with
  | nil => exact pure _
  | cons s rest ih => exact bind (step hPath hRun id s) fun _ => bind ih fun _ => pure _

end Keeps

end Course

end Reanalysis
