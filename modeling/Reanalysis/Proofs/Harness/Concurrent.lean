import Mathlib.Data.List.Nodup
import Reanalysis.Proofs.Harness.Batch
import Reanalysis.Proofs.Harness.Events

/-!
# Programs that are under way at once

The courses of several programs advance in turns, a piece at a time, and the programs come to their ends
in any order. Each course passes as it would alone, as far as its own events are concerned, and the
lines that are written to a log stand there in the order of all events.
-/

namespace Reanalysis.Harness

open Files (Location Spares)
open HarnessAction

variable {σ : Type} {h : Harness} {run : Runner σ} {meanwhile : World σ → World σ → Prop}
  {w w₁ w' : World σ} {jobs front back : List (ProgramId × Course σ StepReport)}
  {events : List (ProgramId × Event)} {reports : List (ProgramId × StepReport)} {id : ProgramId}

/-- All courses come to their ends. Engines that are running can change the world at any time. -/
inductive Interleaved (run : Runner σ) (meanwhile : World σ → World σ → Prop) :
    World σ → List (ProgramId × Course σ StepReport) → List (ProgramId × Event) →
      List (ProgramId × StepReport) → World σ → Prop
  | nil (w : World σ) : Interleaved run meanwhile w [] [] [] w
  | outside {w w₁ w' : World σ} {jobs : List (ProgramId × Course σ StepReport)}
      {events : List (ProgramId × Event)} {reports : List (ProgramId × StepReport)}
      (hChange : meanwhile w w₁) (hRest : Interleaved run meanwhile w₁ jobs events reports w') :
      Interleaved run meanwhile w jobs events reports w'
  | quiet {w w₁ w' : World σ} (front : List (ProgramId × Course σ StepReport)) {id : ProgramId}
      {β : Type} {action : HarnessAction σ β} {next : β → Course σ StepReport} {b : β}
      {back : List (ProgramId × Course σ StepReport)} {events : List (ProgramId × Event)}
      {reports : List (ProgramId × StepReport)} (hAction : Gives action w b w₁)
      (hRest : Interleaved run meanwhile w₁ (front ++ (id, next b) :: back) events reports w') :
      Interleaved run meanwhile w (front ++ (id, .quiet action next) :: back) events reports w'
  | launch {w w₁ w' : World σ} (front : List (ProgramId × Course σ StepReport)) {id program : ProgramId}
      {log : Log} {command : Command} {mode : Mode} {budget : Option Float}
      {next : Outcome → Course σ StepReport} {o : Outcome}
      {back : List (ProgramId × Course σ StepReport)} {events : List (ProgramId × Event)}
      {reports : List (ProgramId × StepReport)} (hRun : (run command).run w = (o, w₁))
      (hRest : Interleaved run meanwhile w₁ (front ++ (id, next o) :: back) events reports w') :
      Interleaved run meanwhile w (front ++ (id, .launch log command program mode budget next) :: back)
        ((id, .launched log (o.toRun program mode budget)) :: events) reports w'
  | record {w w₁ w' : World σ} (front : List (ProgramId × Course σ StepReport)) {id : ProgramId}
      {log log' : Log} {result : Run} {next : Course σ StepReport}
      {back : List (ProgramId × Course σ StepReport)} {events : List (ProgramId × Event)}
      {reports : List (ProgramId × StepReport)}
      (hAppend : Gives (ofStore (log.append result.toEntry.toJson)) w log' w₁)
      (hRest : Interleaved run meanwhile w₁ (front ++ (id, next) :: back) events reports w') :
      Interleaved run meanwhile w (front ++ (id, .record log result next) :: back)
        ((id, .recorded log result) :: events) reports w'
  | sample {w w₁ w' : World σ} (front : List (ProgramId × Course σ StepReport)) {id : ProgramId}
      {coverage coverage' : Log} {value : Sample} {next : Course σ StepReport}
      {back : List (ProgramId × Course σ StepReport)} {events : List (ProgramId × Event)}
      {reports : List (ProgramId × StepReport)}
      (hAppend : Gives (ofStore (coverage.append value.toJson)) w coverage' w₁)
      (hRest : Interleaved run meanwhile w₁ (front ++ (id, next) :: back) events reports w') :
      Interleaved run meanwhile w (front ++ (id, .sample coverage value next) :: back)
        ((id, .sampled coverage value) :: events) reports w'
  | done {w w' : World σ} (front : List (ProgramId × Course σ StepReport)) {id : ProgramId}
      {report : StepReport} {back : List (ProgramId × Course σ StepReport)}
      {events : List (ProgramId × Event)} {reports : List (ProgramId × StepReport)}
      (hRest : Interleaved run meanwhile w (front ++ back) events reports w') :
      Interleaved run meanwhile w (front ++ (id, .done report) :: back) events ((id, report) :: reports) w'

/-! ## One after the other -/

theorem Interleaved.of_act {c : Course σ StepReport} {report : StepReport}
    (hAct : Gives (c.act run) w report w₁) (hRest : Interleaved run meanwhile w₁ jobs events reports w') :
    ∃ own, Interleaved run meanwhile w ((id, c) :: jobs) (own ++ events) ((id, report) :: reports) w' := by
  induction c generalizing w with
  | done a =>
    obtain ⟨rfl, rfl⟩ := Gives.pure_iff.mp hAct
    exact ⟨[], .done [] hRest⟩
  | quiet action next ih =>
    obtain ⟨b, w₂, hAction, hNext⟩ := Gives.bind_iff.mp hAct
    obtain ⟨own, hOwn⟩ := ih b hNext
    exact ⟨own, .quiet [] hAction hOwn⟩
  | launch log command program mode budget next ih =>
    obtain ⟨o, w₂, hRun, hNext⟩ := Gives.bind_iff.mp hAct
    obtain ⟨own, hOwn⟩ := ih o hNext
    exact ⟨_ :: own, .launch [] (Gives.lift_iff.mp hRun) hOwn⟩
  | record log result next ih =>
    obtain ⟨log', w₂, hAppend, hNext⟩ := Gives.bind_iff.mp hAct
    obtain ⟨own, hOwn⟩ := ih hNext
    exact ⟨_ :: own, .record [] hAppend hOwn⟩
  | sample coverage value next ih =>
    obtain ⟨log', w₂, hAppend, hNext⟩ := Gives.bind_iff.mp hAct
    obtain ⟨own, hOwn⟩ := ih hNext
    exact ⟨_ :: own, .sample [] hAppend hOwn⟩

def courses (h : Harness) (run : Runner σ) (steps : List OpenStep) (ids : List ProgramId) :
    List (ProgramId × Course σ StepReport) := ids.map fun id => (id, Course.steps h run id steps)

theorem interleaved_of_runAll {steps : List OpenStep} {ids : List ProgramId}
    (hRun : Gives (h.runAll run steps ids) w reports w') :
    ∃ events, Interleaved run meanwhile w (h.courses run steps ids) events reports w' := by
  induction ids generalizing w reports with
  | nil =>
    obtain ⟨rfl, rfl⟩ := Gives.mapM_nil_iff.mp hRun
    exact ⟨[], .nil w⟩
  | cons id ids ih =>
    simp only [runAll, Gives.mapM_cons_iff, Gives.bind_iff, Gives.pure_iff] at hRun
    obtain ⟨_, w₁, rest, ⟨report, _, hFirst, rfl, rfl⟩, hRest, rfl⟩ := hRun
    obtain ⟨events, hEvents⟩ := ih hRest
    rw [← Course.act_steps] at hFirst
    obtain ⟨own, hOwn⟩ := Interleaved.of_act hFirst hEvents
    exact ⟨own ++ events, hOwn⟩

/-! ## The events of a program -/

def eventsOf (id : ProgramId) (events : List (ProgramId × Event)) : List Event :=
  (events.filter (·.1 = id)).map Prod.snd

theorem eventsOf_cons_self (e : Event) (events : List (ProgramId × Event)) :
    eventsOf id ((id, e) :: events) = e :: eventsOf id events := by
  simp [eventsOf]

theorem eventsOf_cons_of_ne {other : ProgramId} (hNe : other ≠ id) (e : Event)
    (events : List (ProgramId × Event)) : eventsOf id ((other, e) :: events) = eventsOf id events := by
  simp [eventsOf, hNe]

theorem eventsOf_eq_nil (hNone : ∀ e ∈ events, e.1 ≠ id) : eventsOf id events = [] := by
  rw [eventsOf, List.filter_eq_nil_iff.mpr (by simpa using hNone), List.map_nil]

/-- Every course has passed to its report, and nothing has happened for other programs. -/
structure Accounts (jobs : List (ProgramId × Course σ StepReport)) (events : List (ProgramId × Event))
    (reports : List (ProgramId × StepReport)) : Prop where
  programs : (reports.map Prod.fst).Perm (jobs.map Prod.fst)
  known : ∀ e ∈ events, e.1 ∈ jobs.map Prod.fst
  passes : ∀ job ∈ jobs, ∃ report, (job.1, report) ∈ reports ∧
    Course.Passes job.2 (eventsOf job.1 events) report

theorem mem_middle_iff {α : Type*} {a b : α} {front back : List α} :
    a ∈ front ++ b :: back ↔ a = b ∨ a ∈ front ++ back :=
  List.perm_middle.mem_iff.trans List.mem_cons

theorem other_program {c : Course σ StepReport}
    (hNodup : ((front ++ (id, c) :: back).map Prod.fst).Nodup) :
    ∀ job ∈ front ++ back, job.1 ≠ id := by
  intro job hJob hSame
  rw [List.map_append, List.map_cons, List.nodup_middle, List.nodup_cons, ← List.map_append] at hNodup
  exact hNodup.1 (List.mem_map.mpr ⟨job, hJob, hSame⟩)

namespace Accounts

variable {c c' : Course σ StepReport}

theorem map_fst_middle :
    (front ++ (id, c) :: back).map Prod.fst = (front ++ (id, c') :: back).map Prod.fst := by simp

theorem silent (hStep : ∀ own report, Course.Passes c' own report → Course.Passes c own report)
    (hRest : Accounts (front ++ (id, c') :: back) events reports) :
    Accounts (front ++ (id, c) :: back) events reports where
  programs := hRest.programs.trans (by simp)
  known := by rw [map_fst_middle]; exact hRest.known
  passes job hJob := by
    rcases mem_middle_iff.mp hJob with rfl | hJob
    · obtain ⟨report, hReport, hPasses⟩ := hRest.passes _ (mem_middle_iff.mpr (.inl rfl))
      exact ⟨report, hReport, hStep _ _ hPasses⟩
    · exact hRest.passes job (mem_middle_iff.mpr (.inr hJob))

theorem event {e : Event} (hNodup : ((front ++ (id, c) :: back).map Prod.fst).Nodup)
    (hStep : ∀ own report, Course.Passes c' own report → Course.Passes c (e :: own) report)
    (hRest : Accounts (front ++ (id, c') :: back) events reports) :
    Accounts (front ++ (id, c) :: back) ((id, e) :: events) reports where
  programs := hRest.programs.trans (by simp)
  known := by
    rw [map_fst_middle]
    exact List.forall_mem_cons.mpr ⟨by simp, hRest.known⟩
  passes job hJob := by
    rcases mem_middle_iff.mp hJob with rfl | hJob
    · obtain ⟨report, hReport, hPasses⟩ := hRest.passes _ (mem_middle_iff.mpr (.inl rfl))
      rw [eventsOf_cons_self]
      exact ⟨report, hReport, hStep _ _ hPasses⟩
    · rw [eventsOf_cons_of_ne (other_program hNodup job hJob).symm]
      exact hRest.passes job (mem_middle_iff.mpr (.inr hJob))

theorem finish {report : StepReport}
    (hNodup : ((front ++ (id, (.done report : Course σ StepReport)) :: back).map Prod.fst).Nodup)
    (hRest : Accounts (front ++ back) events reports) :
    Accounts (front ++ (id, (.done report : Course σ StepReport)) :: back) events
      ((id, report) :: reports) where
  programs := by
    rw [List.map_cons, List.map_append, List.map_cons]
    refine (hRest.programs.cons id).trans ?_
    rw [List.map_append]
    exact List.perm_middle.symm
  known e he := by
    have hMem := hRest.known e he
    rw [List.map_append] at hMem ⊢
    exact mem_middle_iff.mpr (.inr hMem)
  passes job hJob := by
    rcases mem_middle_iff.mp hJob with rfl | hJob
    · refine ⟨report, List.mem_cons_self, ?_⟩
      rw [eventsOf_eq_nil]
      · exact .done report
      · intro e he hSame
        obtain ⟨job, hJob, hProgram⟩ := List.mem_map.mp (hRest.known e he)
        exact other_program hNodup job hJob (hProgram.trans hSame)
    · obtain ⟨report', hReport, hPasses⟩ := hRest.passes job hJob
      exact ⟨report', List.mem_cons_of_mem _ hReport, hPasses⟩

end Accounts

theorem Interleaved.accounts (hAll : Interleaved run meanwhile w jobs events reports w')
    (hNodup : (jobs.map Prod.fst).Nodup) : Accounts jobs events reports := by
  induction hAll with
  | nil w => exact ⟨.nil, List.forall_mem_nil _, List.forall_mem_nil _⟩
  | outside _ _ ih => exact ih hNodup
  | quiet front hAction _ ih =>
    exact .silent (fun _ _ hPasses => .quiet hAction hPasses) (ih (by simpa using hNodup))
  | launch front _ _ ih =>
    exact .event hNodup (fun _ _ hPasses => .launch hPasses) (ih (by simpa using hNodup))
  | record front _ _ ih =>
    exact .event hNodup (fun _ _ hPasses => .record hPasses) (ih (by simpa using hNodup))
  | sample front _ _ ih =>
    exact .event hNodup (fun _ _ hPasses => .sample hPasses) (ih (by simpa using hNodup))
  | done front _ ih =>
    refine .finish hNodup (ih ?_)
    rw [List.map_append, List.map_cons, List.nodup_middle, List.nodup_cons, ← List.map_append] at hNodup
    exact hNodup.2

/-! ## Lines -/

def written? : Event → Option (Log × Json.Value)
  | .launched _ _ => none
  | .recorded log result => some (log, result.toEntry.toJson)
  | .sampled coverage value => some (coverage, value.toJson)

/-- The values that go to logs of some kind, in the order of the events. -/
def writtenTo (p : Log → Bool) (events : List (ProgramId × Event)) : List Json.Value :=
  ((events.filterMap (written? ·.2)).filter (p ·.1)).map Prod.snd

section Lines

variable {path : Location} {number : Nat} {old : Bytes}

theorem writtenTo_cons {p : Log → Bool} {e : Event} {log : Log} {value : Json.Value}
    (hWritten : written? e = some (log, value)) :
    writtenTo p ((id, e) :: events) =
      (if p log then [value] else []) ++ writtenTo p events := by
  simp only [writtenTo, List.filterMap_cons, hWritten, List.filter_cons]
  split <;> rfl

theorem stores_append {log log' : Log} {value : Json.Value}
    (hPosition : log.number = number → log.position = none) (hStores : w.files.Stores path number old)
    (hAppend : Gives (ofStore (log.append value)) w log' w₁) :
    w₁.files.Stores path number
      (old ++ (if log.number = number then [value] else []).flatMap Log.line) := by
  split
  · rename_i hNumber
    subst hNumber
    obtain ⟨fs, hAdded, rfl⟩ := gives_ofStore_iff.mp hAppend
    obtain ⟨rfl, -, -⟩ :=
      Log.gives_append_end hStores.content_eq (Log.atEnd_of_none (hPosition rfl) old) hAdded
    simpa using hStores.setContent _
  · rename_i hNumber
    simpa using (sparing_append hNumber value).of_gives hAppend old hStores

theorem keeps_middle {c c' : Course σ StepReport}
    (hKeeps : ∀ job ∈ front ++ (id, c) :: back, job.2.Keeps path) (hNext : c'.Keeps path) :
    ∀ job ∈ front ++ (id, c') :: back, job.2.Keeps path := by
  intro job hJob
  rcases mem_middle_iff.mp hJob with rfl | hJob
  · exact hNext
  · exact hKeeps job (mem_middle_iff.mpr (.inr hJob))

/-- The lines of all events stand in the log, one behind the other. -/
theorem Interleaved.stores (hAll : Interleaved run meanwhile w jobs events reports w')
    (hKeeps : ∀ job ∈ jobs, job.2.Keeps path) (hRun : run.LeavesAlone path)
    (hMeanwhile : ∀ w w', meanwhile w w' → Spares path number w.files w'.files)
    (hPosition : ∀ e ∈ events, ∀ log value, written? e.2 = some (log, value) → log.number = number →
      log.position = none)
    (hStores : w.files.Stores path number old) :
    w'.files.Stores path number
      (old ++ (writtenTo (·.number = number) events).flatMap Log.line) := by
  induction hAll generalizing old with
  | nil w => simpa [writtenTo] using hStores
  | outside hChange _ ih => exact ih hKeeps hPosition (hMeanwhile _ _ hChange old hStores)
  | quiet front hAction _ ih =>
    have hThis := hKeeps _ (mem_middle_iff.mpr (.inl rfl))
    exact ih (keeps_middle hKeeps (hThis.2 _)) hPosition ((hThis.1 number).of_gives hAction old hStores)
  | @launch w _ _ front _ _ _ command _ _ _ _ _ _ _ hOutcome _ ih =>
    have hThis := hKeeps _ (mem_middle_iff.mpr (.inl rfl))
    have hSpares := hRun command w number
    rw [hOutcome] at hSpares
    exact ih (keeps_middle hKeeps (hThis _)) (List.forall_mem_cons.mp hPosition).2 (hSpares old hStores)
  | record front hAppend _ ih =>
    have hThis := hKeeps _ (mem_middle_iff.mpr (.inl rfl))
    obtain ⟨hFirst, hLater⟩ := List.forall_mem_cons.mp hPosition
    rw [writtenTo_cons rfl, List.flatMap_append, ← List.append_assoc]
    simp only [decide_eq_true_eq]
    exact ih (keeps_middle hKeeps hThis) hLater (stores_append (hFirst _ _ rfl) hStores hAppend)
  | sample front hAppend _ ih =>
    have hThis := hKeeps _ (mem_middle_iff.mpr (.inl rfl))
    obtain ⟨hFirst, hLater⟩ := List.forall_mem_cons.mp hPosition
    rw [writtenTo_cons rfl, List.flatMap_append, ← List.append_assoc]
    simp only [decide_eq_true_eq]
    exact ih (keeps_middle hKeeps hThis) hLater (stores_append (hFirst _ _ rfl) hStores hAppend)
  | done front _ ih =>
    exact ih (fun job hJob => hKeeps job (mem_middle_iff.mpr (.inr hJob))) hPosition hStores

end Lines

end Reanalysis.Harness
