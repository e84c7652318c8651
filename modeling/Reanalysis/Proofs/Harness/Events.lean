import Reanalysis.Proofs.Harness.Course

/-!
# What reports tell

A course leads over launches, records and samples to a report. Every launch of a program is recorded
before the next one, and the report lists these records in their order.
-/

namespace Reanalysis

open Files (Location)

/-! ## What a course leads to -/

/-- Something that is done in the course of a program and concerns a log. -/
inductive Event where
  | launched (log : Log) (result : Run)
  | recorded (log : Log) (result : Run)
  | sampled (coverage : Log) (value : Sample)

namespace Event

def launch? : Event → Option (Log × Run)
  | .launched log result => some (log, result)
  | _ => none

def record? : Event → Option (Log × Run)
  | .recorded log result => some (log, result)
  | _ => none

def sample? : Event → Option (Log × Sample)
  | .sampled coverage value => some (coverage, value)
  | _ => none

end Event

namespace Course

open HarnessAction

variable {σ α β : Type}

/-- The course can lead to a result over these events. What it meets on its way is left open. -/
inductive Passes : Course σ α → List Event → α → Prop
  | done (a : α) : Passes (.done a) [] a
  | quiet {β : Type} {action : HarnessAction σ β} {next : β → Course σ α} {b : β} {w w' : World σ}
      {events : List Event} {a : α} (hAction : Gives action w b w') (hNext : Passes (next b) events a) :
      Passes (.quiet action next) events a
  | launch {log : Log} {command : Command} {id : ProgramId} {mode : Mode} {budget : Option Float}
      {next : Outcome → Course σ α} {o : Outcome} {events : List Event} {a : α}
      (hNext : Passes (next o) events a) :
      Passes (.launch log command id mode budget next) (.launched log (o.toRun id mode budget) :: events) a
  | record {log : Log} {result : Run} {next : Course σ α} {events : List Event} {a : α}
      (hNext : Passes next events a) : Passes (.record log result next) (.recorded log result :: events) a
  | sample {coverage : Log} {value : Sample} {next : Course σ α} {events : List Event} {a : α}
      (hNext : Passes next events a) :
      Passes (.sample coverage value next) (.sampled coverage value :: events) a

section Passes

variable {events : List Event} {a : α} {b : β}

theorem passes_pure_iff {a' : α} :
    Passes (pure a : Course σ α) events a' ↔ events = [] ∧ a' = a := by
  constructor
  · intro h
    cases h
    exact ⟨rfl, rfl⟩
  · rintro ⟨rfl, rfl⟩
    exact .done _

theorem Passes.of_bind {c : Course σ α} {f : α → Course σ β} (h : Passes (c >>= f) events b) :
    ∃ a first rest, events = first ++ rest ∧ Passes c first a ∧ Passes (f a) rest b := by
  induction c generalizing events with
  | done a => exact ⟨a, [], events, rfl, .done a, h⟩
  | quiet action next ih =>
    cases h with
    | quiet hAction h =>
      obtain ⟨a, first, rest, rfl, hFirst, hRest⟩ := ih _ h
      exact ⟨a, first, rest, rfl, .quiet hAction hFirst, hRest⟩
  | launch log command id mode budget next ih =>
    cases h with
    | launch h =>
      obtain ⟨a, first, rest, rfl, hFirst, hRest⟩ := ih _ h
      exact ⟨a, _ :: first, rest, rfl, .launch hFirst, hRest⟩
  | record log result next ih =>
    cases h with
    | record h =>
      obtain ⟨a, first, rest, rfl, hFirst, hRest⟩ := ih h
      exact ⟨a, _ :: first, rest, rfl, .record hFirst, hRest⟩
  | sample coverage value next ih =>
    cases h with
    | sample h =>
      obtain ⟨a, first, rest, rfl, hFirst, hRest⟩ := ih h
      exact ⟨a, _ :: first, rest, rfl, .sample hFirst, hRest⟩

theorem Passes.of_lift_bind {action : HarnessAction σ α} {f : α → Course σ β}
    (h : Passes (lift action >>= f) events b) : ∃ a, Passes (f a) events b := by
  cases h with
  | quiet hAction h => exact ⟨_, h⟩

theorem Passes.of_execute_bind {log : Log} {command : Command} {id : ProgramId} {mode : Mode}
    {budget : Option Float} {f : Run × String → Course σ β}
    (h : Passes (execute log command id mode budget >>= f) events b) :
    ∃ (o : Outcome) (rest : List Event), events =
        .launched log (o.toRun id mode budget) :: .recorded log (o.toRun id mode budget) :: rest ∧
      Passes (f (o.toRun id mode budget, o.stdout)) rest b := by
  cases h with
  | launch h =>
    cases h with
    | record h => exact ⟨_, _, rfl, h⟩

theorem Passes.of_withSource {path : Location} {go : Course σ StepReport} {report : StepReport}
    (h : Passes (withSource path go) events report) :
    Passes go events report ∨ events = [] ∧ ∃ skip, report = .ofSkip skip := by
  obtain ⟨fs, h⟩ := h.of_lift_bind
  split at h
  · exact .inl h
  · obtain ⟨rfl, rfl⟩ := passes_pure_iff.mp h
    exact .inr ⟨rfl, _, rfl⟩

end Passes

end Course

/-! ## What reports tell -/

namespace OpenStep

def runLog : OpenStep → Log
  | .full log | .timing log | .targeted log | .fuzz log _ => log

def coverage? : OpenStep → Option Log
  | .fuzz _ coverage => some coverage
  | _ => none

end OpenStep

/-- The report lists what happened for a program in some steps: every launch is recorded before the next
one, and what the report counts are the records and the samples. -/
structure Tells (id : ProgramId) (steps : List OpenStep) (events : List Event) (report : StepReport) :
    Prop where
  launches : events.filterMap Event.launch? = events.filterMap Event.record?
  runs : report.runs = (events.filterMap Event.record?).map Prod.snd
  samples : report.samples = (events.filterMap Event.sample?).length
  program : ∀ e ∈ events.filterMap Event.record?, e.2.program = id
  runLog : ∀ e ∈ events.filterMap Event.record?, ∃ step ∈ steps, step.runLog = e.1
  coverage : ∀ e ∈ events.filterMap Event.sample?, ∃ step ∈ steps, step.coverage? = some e.1

namespace Tells

variable {σ : Type} {id : ProgramId} {steps more : List OpenStep} {events events' : List Event}
  {report report' : StepReport} {step : OpenStep} {log coverage : Log}

theorem of_skip (skip : Skip) : Tells id steps [] (.ofSkip skip) :=
  ⟨rfl, rfl, rfl, List.forall_mem_nil _, List.forall_mem_nil _, List.forall_mem_nil _⟩

theorem empty : Tells id steps [] .empty :=
  ⟨rfl, rfl, rfl, List.forall_mem_nil _, List.forall_mem_nil _, List.forall_mem_nil _⟩

theorem of_run {r : Run} (hProgram : r.program = id) (hStep : step ∈ steps) :
    Tells id steps [.launched step.runLog r, .recorded step.runLog r] (.ofRun r) where
  launches := rfl
  runs := rfl
  samples := rfl
  program := List.forall_mem_singleton.mpr hProgram
  runLog := List.forall_mem_singleton.mpr ⟨step, hStep, rfl⟩
  coverage := List.forall_mem_nil _

theorem of_sample {value : Sample} (hStep : step ∈ steps) (hCoverage : step.coverage? = some coverage) :
    Tells id steps [.sampled coverage value] ⟨[], [], 1⟩ where
  launches := rfl
  runs := rfl
  samples := rfl
  program := List.forall_mem_nil _
  runLog := List.forall_mem_nil _
  coverage := List.forall_mem_singleton.mpr ⟨step, hStep, hCoverage⟩

theorem append (h : Tells id steps events report) (h' : Tells id steps events' report') :
    Tells id steps (events ++ events') (report.append report') where
  launches := by rw [List.filterMap_append, List.filterMap_append, h.launches, h'.launches]
  runs := by rw [List.filterMap_append, List.map_append, ← h.runs, ← h'.runs]; rfl
  samples := by rw [List.filterMap_append, List.length_append, ← h.samples, ← h'.samples]; rfl
  program := by
    rw [List.filterMap_append, List.forall_mem_append]
    exact ⟨h.program, h'.program⟩
  runLog := by
    rw [List.filterMap_append, List.forall_mem_append]
    exact ⟨h.runLog, h'.runLog⟩
  coverage := by
    rw [List.filterMap_append, List.forall_mem_append]
    exact ⟨h.coverage, h'.coverage⟩

theorem mono (hSteps : steps ⊆ more) (h : Tells id steps events report) : Tells id more events report where
  launches := h.launches
  runs := h.runs
  samples := h.samples
  program := h.program
  runLog e he := by
    obtain ⟨step, hStep, hLog⟩ := h.runLog e he
    exact ⟨step, hSteps hStep, hLog⟩
  coverage e he := by
    obtain ⟨step, hStep, hCoverage⟩ := h.coverage e he
    exact ⟨step, hSteps hStep, hCoverage⟩

end Tells

namespace Course

variable {σ : Type} {h : Harness} {run : Runner σ} {id : ProgramId} {events : List Event}
  {report : StepReport} {log coverage : Log}

theorem tells_fuzzOnce {harness : Location} {budget : Float}
    (hPasses : Passes (fuzzOnce h log coverage id harness budget : Course σ _) events report) :
    Tells id [.fuzz log coverage] events report := by
  obtain ⟨command, hPasses⟩ := hPasses.of_lift_bind
  obtain ⟨o, rest, rfl, hRest⟩ := hPasses.of_execute_bind
  have hRun := Tells.of_run (o.program_toRun id .fuzz (some budget))
    (List.mem_singleton_self (OpenStep.fuzz log coverage))
  dsimp only at hRest
  split at hRest
  · obtain ⟨rfl, rfl⟩ := passes_pure_iff.mp hRest
    exact hRun
  · split at hRest
    · cases hRest with
      | quiet hAction _ => exact absurd hAction Gives.not_throw
    · cases hRest with
      | sample hRest =>
        cases hRest
        exact hRun.append (.of_sample (List.mem_singleton_self (OpenStep.fuzz log coverage)) rfl)

theorem tells_fuzzAll {harness : Location} {budgets : List Float}
    (hPasses : Passes (fuzzAll h log coverage id harness budgets : Course σ _) events report) :
    Tells id [.fuzz log coverage] events report := by
  induction budgets generalizing events report with
  | nil =>
    obtain ⟨rfl, rfl⟩ := passes_pure_iff.mp hPasses
    exact .empty
  | cons budget rest ih =>
    obtain ⟨first, _, _, rfl, hFirst, hPasses⟩ := hPasses.of_bind
    obtain ⟨others, _, _, rfl, hOthers, hPasses⟩ := hPasses.of_bind
    obtain ⟨rfl, rfl⟩ := passes_pure_iff.mp hPasses
    rw [List.append_nil]
    exact (tells_fuzzOnce hFirst).append (ih hOthers)

theorem tells_execute {step : OpenStep} {command : Command} {mode : Mode}
    (hPasses : Passes (do
      let (result, _) ← (execute step.runLog command id mode none : Course σ _)
      return .ofRun result) events report) : Tells id [step] events report := by
  obtain ⟨o, rest, rfl, hRest⟩ := hPasses.of_execute_bind
  obtain ⟨rfl, rfl⟩ := passes_pure_iff.mp hRest
  exact .of_run (o.program_toRun id mode none) (List.mem_singleton_self step)

theorem silent_differ {base modified result : Location} {message : Option String}
    (hPasses : Passes (differ h run id base modified result) events message) : events = [] := by
  rw [differ] at hPasses
  split at hPasses
  · obtain ⟨_, hPasses⟩ := hPasses.of_lift_bind
    obtain ⟨_, hPasses⟩ := hPasses.of_lift_bind
    obtain ⟨_, hPasses⟩ := hPasses.of_lift_bind
    obtain ⟨_, hPasses⟩ := hPasses.of_lift_bind
    cases hPasses with
    | quiet _ hPasses => exact (passes_pure_iff.mp hPasses).1
  · cases hPasses with
    | quiet _ hPasses => exact (passes_pure_iff.mp hPasses).1

theorem tells_full {log : Log} (hPasses : Passes (full h log id : Course σ _) events report) :
    Tells id [.full log] events report := by
  rcases hPasses.of_withSource with hPasses | ⟨rfl, skip, rfl⟩
  · obtain ⟨base, hPasses⟩ := hPasses.of_lift_bind
    obtain ⟨command, hPasses⟩ := hPasses.of_lift_bind
    obtain ⟨found, hPasses⟩ := hPasses.of_lift_bind
    obtain ⟨fs, hPasses⟩ := hPasses.of_lift_bind
    obtain ⟨o, rest, rfl, hRest⟩ := hPasses.of_execute_bind
    obtain ⟨fs', hRest⟩ := hRest.of_lift_bind
    -- The state is kept or dropped after the run is recorded.
    have hEnd : rest = [] ∧ report = .ofRun (o.toRun id .full none) := by
      dsimp only at hRest
      split at hRest
      all_goals
        obtain ⟨_, hRest⟩ := hRest.of_lift_bind
        exact passes_pure_iff.mp hRest
    obtain ⟨rfl, rfl⟩ := hEnd
    exact .of_run (o.program_toRun id .full none) (List.mem_singleton_self (OpenStep.full log))
  · exact .of_skip skip

theorem tells_timing {log : Log} (hPasses : Passes (timing h log id : Course σ _) events report) :
    Tells id [.timing log] events report := by
  rcases hPasses.of_withSource with hPasses | ⟨rfl, skip, rfl⟩
  · obtain ⟨command, hPasses⟩ := hPasses.of_lift_bind
    exact tells_execute hPasses
  · exact .of_skip skip

theorem tells_targeted {log : Log} (hPasses : Passes (targeted h run log id) events report) :
    Tells id [.targeted log] events report := by
  rcases hPasses.of_withSource with hPasses | ⟨rfl, skip, rfl⟩
  swap
  · exact .of_skip skip
  rcases hPasses.of_withSource with hPasses | ⟨rfl, skip, rfl⟩
  swap
  · exact .of_skip skip
  obtain ⟨message, first, rest, rfl, hDiffer, hRest⟩ := hPasses.of_bind
  obtain rfl : first = [] := silent_differ hDiffer
  cases message with
  | some message =>
    obtain ⟨rfl, rfl⟩ := passes_pure_iff.mp hRest
    exact .of_skip _
  | none =>
    obtain ⟨digest, hRest⟩ := hRest.of_lift_bind
    obtain ⟨found, hRest⟩ := hRest.of_lift_bind
    cases found with
    | some cache =>
      obtain ⟨command, hRest⟩ := hRest.of_lift_bind
      exact tells_execute hRest
    | none =>
      obtain ⟨command, hRest⟩ := hRest.of_lift_bind
      exact tells_execute hRest

theorem tells_step {step : OpenStep} (hPasses : Passes (Course.step h run id step) events report) :
    Tells id [step] events report := by
  cases step with
  | full log => exact tells_full hPasses
  | timing log => exact tells_timing hPasses
  | targeted log => exact tells_targeted hPasses
  | fuzz log coverage =>
    rcases hPasses.of_withSource with hPasses | ⟨rfl, skip, rfl⟩
    · exact tells_fuzzAll hPasses
    · exact .of_skip skip

theorem tells_steps {ss : List OpenStep} (hPasses : Passes (steps h run id ss) events report) :
    Tells id ss events report := by
  induction ss generalizing events report with
  | nil =>
    obtain ⟨rfl, rfl⟩ := passes_pure_iff.mp hPasses
    exact .empty
  | cons s rest ih =>
    obtain ⟨first, _, _, rfl, hFirst, hPasses⟩ := hPasses.of_bind
    obtain ⟨others, _, _, rfl, hOthers, hPasses⟩ := hPasses.of_bind
    obtain ⟨rfl, rfl⟩ := passes_pure_iff.mp hPasses
    rw [List.append_nil]
    exact ((tells_step hFirst).mono (by simp)).append ((ih hOthers).mono (List.subset_cons_self _ _))

end Course

end Reanalysis
