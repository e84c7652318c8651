import Mathlib.Data.List.Dedup
import Mathlib.Data.List.Nodup
import Reanalysis.Proofs.Report.Accounts

/-!
# A timing report joins the last runs with the records

A program has a row exactly when its last run succeeded and it has a record, and the row holds what
these two say. Every other program that was run is dropped once, for the reason that its last run
and the scan give.
-/

namespace Reanalysis

/-- No later element has the property. -/
def IsLastWith {α : Type} (p : α → Prop) (xs : List α) (a : α) : Prop :=
  ∃ before after, xs = before ++ a :: after ∧ p a ∧ ∀ b ∈ after, ¬ p b

theorem getLast?_filter_eq_some_iff {α : Type} {p : α → Bool} {xs : List α} {a : α} :
    (xs.filter p).getLast? = some a ↔ IsLastWith (p · = true) xs a := by
  rw [← List.head?_reverse, ← List.filter_reverse, List.head?_filter, List.find?_eq_some_iff_append]
  constructor
  · rintro ⟨ha, after, before, hxs, hafter⟩
    refine ⟨before.reverse, after.reverse, ?_, ha, fun b hb => ?_⟩
    · rw [← List.reverse_reverse xs, hxs]
      simp
    · simpa using hafter b (List.mem_reverse.mp hb)
  · rintro ⟨before, after, rfl, ha, hafter⟩
    refine ⟨ha, after.reverse, before.reverse, by simp, fun b hb => ?_⟩
    simpa using hafter b (List.mem_reverse.mp hb)

theorem Run.latest?_eq_some_iff {runs : List Run} {id : ProgramId} {run : Run} :
    latest? runs id = some run ↔ IsLastWith (·.program = id) runs run := by
  rw [latest?, getLast?_filter_eq_some_iff]
  simp only [decide_eq_true_eq]

namespace Timing

variable {runs : List Run} {scan : Scan} {extras : Extras} {id : ProgramId} {run : Run}

/-- Why the last run of a program has no row. -/
def Refuses (scan : Scan) (run : Run) : DropReason → Prop
  | .timedOut => ¬ (run.code = 0 ∧ run.status = .ok) ∧ run.status = .timeout
  | .failed => ¬ (run.code = 0 ∧ run.status = .ok) ∧ run.status ≠ .timeout
  | .malformedStats => (run.code = 0 ∧ run.status = .ok) ∧ ¬ scan.Records run.program ∧
      ∃ error, scan.issue? run.program = some (.malformed error)
  | .unreadableRecord => (run.code = 0 ∧ run.status = .ok) ∧ ¬ scan.Records run.program ∧
      ∃ path, scan.issue? run.program = some (.unreadable path)
  | .missingRecord => (run.code = 0 ∧ run.status = .ok) ∧ ¬ scan.Records run.program ∧
      (scan.issue? run.program = none ∨ ∃ path, scan.issue? run.program = some (.missing path))
  | .diffFailed | .missingInOtherMode => False

theorem place_eq_error_iff (extras : Extras) {reason : DropReason} :
    place scan extras run = .error reason ↔ Refuses scan run reason := by
  rw [place]
  by_cases hgood : run.code = 0 ∧ run.status = .ok
  · rw [if_neg (by simp [Run.isSuccess_iff.mpr hgood])]
    cases hprogram : scan.program? run.program with
    | some p =>
      have hrecords : scan.Records run.program := Scan.isSome_program?_iff.mp (by rw [hprogram]; rfl)
      cases reason <;> simp [Refuses, hgood, hrecords]
    | none =>
      have hrecords : ¬ scan.Records run.program := by
        rw [Scan.Records, ← Scan.isSome_program?_iff, hprogram]
        simp
      rcases hissue : scan.issue? run.program with _ | ⟨path | error | path⟩ <;>
        cases reason <;> simp [Refuses, hgood, hrecords, hissue]
  · have hfailed : run.isSuccess = false := by
      rw [← Bool.not_eq_true, Run.isSuccess_iff]
      exact hgood
    rw [if_pos (by simp [hfailed])]
    by_cases htimeout : run.status = .timeout <;>
      cases reason <;> simp [Refuses, hgood, htimeout]

/-- The row holds what the last run of its program, its record and the extras say. -/
structure Joins (runs : List Run) (scan : Scan) (extras : Extras) (row : TimingRow) : Prop where
  run : ∃ run, IsLastWith (·.program = row.program) runs run ∧ row.mode = run.mode ∧
    row.seconds = run.seconds
  record : ∃ p, scan.program? row.program = some p ∧ row.metrics = p.metrics ∧ row.lines = p.lines ∧
    row.coverage = row.reached.map p.metrics.coverage
  cacheBytes : row.cacheBytes = ProgramId.latest? extras.cacheBytes row.program
  reached : row.reached = ProgramId.latest? extras.reached row.program

theorem joins_of_place {row : TimingRow} (hrun : IsLastWith (·.program = run.program) runs run)
    (h : place scan extras run = .ok row) : Joins runs scan extras row := by
  rw [place] at h
  split at h
  · cases h
  split at h
  · cases h
  · rename_i p hp
    cases h
    exact ⟨⟨run, hrun, rfl, rfl⟩, ⟨p, hp, rfl, rfl, rfl⟩, rfl, rfl⟩

theorem joins_of_mem_rows {row : TimingRow} (h : row ∈ (compute runs scan extras).rows) :
    Joins runs scan extras row := by
  rw [rows_compute, List.mem_filterMap] at h
  obtain ⟨id, -, hrow⟩ := h
  rw [verdict?, Option.bind_map, Option.bind_eq_some_iff] at hrow
  obtain ⟨run, hrun, hplace⟩ := hrow
  obtain rfl := Run.program_of_latest? hrun
  refine joins_of_place (Run.latest?_eq_some_iff.mp hrun) ?_
  rw [Function.comp_apply] at hplace
  cases hresult : place scan extras run with
  | error reason =>
    rw [hresult] at hplace
    cases hplace
  | ok row' =>
    rw [hresult] at hplace
    cases hplace
    rfl

theorem mem_programs_of_rows_iff :
    id ∈ (compute runs scan extras).rows.map TimingRow.program ↔
      ∃ run, IsLastWith (·.program = id) runs run ∧ (run.code = 0 ∧ run.status = .ok) ∧
        scan.Records id := by
  rw [← (ascending_compute ..).isSome_row?_iff, isSome_row?_iff, Run.Succeeds]
  simp only [Run.latest?_eq_some_iff]
  constructor
  · rintro ⟨⟨run, hlast, hgood⟩, hrecords⟩
    exact ⟨run, hlast, hgood, hrecords⟩
  · rintro ⟨run, hlast, hgood, hrecords⟩
    exact ⟨⟨run, hlast, hgood⟩, hrecords⟩

theorem mem_drops_compute_iff {reason : DropReason} :
    (id, reason) ∈ (compute runs scan extras).dropped.drops ↔
      ∃ run, IsLastWith (·.program = id) runs run ∧ Refuses scan run reason := by
  rw [(ordered_compute ..).mem_drops_iff_reason?, reason?_compute, verdict?, Option.bind_map,
    Option.bind_eq_some_iff]
  refine exists_congr fun run => and_congr Run.latest?_eq_some_iff ?_
  rw [← place_eq_error_iff extras, Function.comp_apply]
  cases place scan extras run <;> simp [refusal?]

theorem mem_drops_iff_not_mem_rows :
    id ∈ (compute runs scan extras).dropped.drops.map (·.1) ↔
      id ∈ runs.map Run.program ∧ id ∉ (compute runs scan extras).rows.map TimingRow.program := by
  rw [Tally.mem_drops_iff, reason?_compute, ← (ascending_compute ..).isSome_row?_iff, row?_compute]
  rcases verdict?_cases runs scan extras id with ⟨hverdict, hran⟩ | ⟨⟨row, hverdict⟩, hran⟩ |
    ⟨⟨reason, hverdict⟩, hran⟩
  · simp [hverdict, hran]
  · simp [hverdict, refusal?, Except.toOption]
  · simp [hverdict, hran, refusal?, Except.toOption]

/-- What a timing report has to say about the runs behind it. -/
structure Accounts (runs : List Run) (scan : Scan) (extras : Extras) (t : Timing) : Prop where
  kept_ascending : (t.rows.map TimingRow.program).Pairwise (· < ·)
  kept_iff : ∀ id, id ∈ t.rows.map TimingRow.program ↔
    ∃ run, IsLastWith (·.program = id) runs run ∧ (run.code = 0 ∧ run.status = .ok) ∧ scan.Records id
  joined : ∀ row ∈ t.rows, Joins runs scan extras row
  dropped_ascending : (t.dropped.drops.map (·.1)).Pairwise (· < ·)
  dropped_iff : ∀ id, id ∈ t.dropped.drops.map (·.1) ↔
    id ∈ runs.map Run.program ∧ id ∉ t.rows.map TimingRow.program
  reason_iff : ∀ id reason, (id, reason) ∈ t.dropped.drops ↔
    ∃ run, IsLastWith (·.program = id) runs run ∧ Refuses scan run reason
  counted : t.rows.length + t.dropped.total = (runs.map Run.program).dedup.length
  found_iff : ∀ id row, t.row? id = some row ↔ row ∈ t.rows ∧ row.program = id

theorem length_rows_add_total (runs : List Run) (scan : Scan) (extras : Extras) :
    (compute runs scan extras).rows.length + (compute runs scan extras).dropped.total =
      (runs.map Run.program).dedup.length := by
  have hkept := ProgramId.nodup_of_pairwise (ascending_compute runs scan extras)
  have hdropped := ProgramId.nodup_of_pairwise (ordered_compute runs scan extras)
  have hapart : List.Disjoint ((compute runs scan extras).rows.map TimingRow.program)
      ((compute runs scan extras).dropped.drops.map (·.1)) :=
    fun id hin hout => (mem_drops_iff_not_mem_rows.mp hout).2 hin
  have hmem : ∀ id, id ∈ (compute runs scan extras).rows.map TimingRow.program ++
      (compute runs scan extras).dropped.drops.map (·.1) ↔ id ∈ (runs.map Run.program).dedup := by
    intro id
    rw [List.mem_append, List.mem_dedup, mem_drops_iff_not_mem_rows]
    have hran : id ∈ (compute runs scan extras).rows.map TimingRow.program →
        id ∈ runs.map Run.program := by
      intro hin
      obtain ⟨run, ⟨before, after, rfl, rfl, -⟩, -⟩ := mem_programs_of_rows_iff.mp hin
      simp
    tauto
  have hperm := (List.perm_ext_iff_of_nodup (hkept.append hdropped hapart) (List.nodup_dedup _)).mpr hmem
  simpa [Tally.total] using hperm.length_eq

theorem last_runs_joined_and_accounted (runs : List Run) (scan : Scan) (extras : Extras) :
    Accounts runs scan extras (compute runs scan extras) where
  kept_ascending := ascending_compute runs scan extras
  kept_iff _ := mem_programs_of_rows_iff
  joined _ := joins_of_mem_rows
  dropped_ascending := ordered_compute runs scan extras
  dropped_iff _ := mem_drops_iff_not_mem_rows
  reason_iff _ _ := mem_drops_compute_iff
  counted := length_rows_add_total runs scan extras
  found_iff _ _ := (ascending_compute runs scan extras).row?_eq_some_iff

end Timing

end Reanalysis
