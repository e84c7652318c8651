import Reanalysis.Proofs.Report.Tally
import Reanalysis.Report.Timing

/-!
# What a timing report says about one program

The last run of a program decides: it has a row, or it is dropped with a reason, or it was never run.
The report lists these verdicts in the order of the ids, so that a search by halves finds every row.
-/

namespace Reanalysis

/-! ## Values under ids -/

section Keyed

variable {α : Type} {key : α → ProgramId} {g : ProgramId → Option α}

theorem find?_filterMap (hkey : ∀ id a, g id = some a → key a = id) (ids : List ProgramId)
    (id : ProgramId) :
    (ids.filterMap g).find? (key · = id) = if id ∈ ids then g id else none := by
  induction ids with
  | nil => rfl
  | cons other ids ih =>
    cases hother : g other with
    | none =>
      rw [List.filterMap_cons_none hother, ih]
      by_cases h : id = other
      · subst h
        simp [hother]
      · simp [h]
    | some a =>
      have ha := hkey other a hother
      rw [List.filterMap_cons_some hother, List.find?_cons]
      by_cases h : id = other
      · subst h
        simp [ha, hother]
      · have hne : key a ≠ id := fun heq => h (heq.symm.trans ha)
        simp [hne, h, ih]

theorem map_filterMap {β : Type} {f : β → Option α} {name : β → ProgramId}
    (hkey : ∀ b a, f b = some a → key a = name b) (bs : List β) :
    (bs.filterMap f).map key = (bs.filter fun b => (f b).isSome).map name := by
  induction bs with
  | nil => rfl
  | cons b bs ih =>
    cases hf : f b with
    | none => rw [List.filterMap_cons_none hf, List.filter_cons_of_neg (by simp [hf]), ih]
    | some a =>
      rw [List.filterMap_cons_some hf, List.map_cons, List.filter_cons_of_pos (by simp [hf]),
        List.map_cons, ih, hkey b a hf]

end Keyed

/-! ## The last run -/

namespace Run

theorem program_of_latest? {runs : List Run} {id : ProgramId} {r : Run}
    (h : latest? runs id = some r) : r.program = id := by
  have hmem := List.mem_of_getLast? h
  simpa using (List.mem_filter.mp hmem).2

theorem isSome_latest?_iff {runs : List Run} {id : ProgramId} :
    (latest? runs id).isSome = true ↔ id ∈ runs.map Run.program := by
  rw [latest?, List.getLast?_isSome, ne_eq, List.filter_eq_nil_iff]
  simp

theorem mem_programs_iff {runs : List Run} {id : ProgramId} :
    id ∈ programs runs ↔ id ∈ runs.map Run.program :=
  ProgramId.mem_ascending

theorem not_mem_programs {runs : List Run} {id : ProgramId} (h : id ∉ programs runs) :
    latest? runs id = none := by
  rw [mem_programs_iff, ← isSome_latest?_iff, Bool.not_eq_true, Option.isSome_eq_false_iff] at h
  exact Option.isNone_iff_eq_none.mp h

theorem isSuccess_iff {run : Run} : run.isSuccess = true ↔ run.code = 0 ∧ run.status = .ok := by
  simp [isSuccess]

end Run

theorem Scan.isSome_program?_iff {scan : Scan} {id : ProgramId} :
    (scan.program? id).isSome = true ↔ ∃ p ∈ scan.programs, p.id = id := by
  rw [program?, List.getLast?_isSome, ne_eq, List.filter_eq_nil_iff]
  simp

namespace Timing

/-- What becomes of a program; nothing if it was never run. -/
def verdict? (runs : List Run) (scan : Scan) (extras : Extras) (id : ProgramId) :
    Option (Except DropReason TimingRow) :=
  (Run.latest? runs id).map (place scan extras)

/-- The reason of a verdict that gives no row. -/
def refusal? : Except DropReason TimingRow → Option DropReason
  | .ok _ => none
  | .error reason => some reason

variable {runs : List Run} {scan : Scan} {extras : Extras} {id : ProgramId}

theorem program_of_place {run : Run} {row : TimingRow} (h : place scan extras run = .ok row) :
    row.program = run.program := by
  rw [place] at h
  split at h
  · cases h
  split at h
  · cases h
  · cases h
    rfl

theorem isSome_toOption_place_iff {run : Run} :
    (place scan extras run).toOption.isSome = true ↔
      (run.code = 0 ∧ run.status = .ok) ∧ ∃ p ∈ scan.programs, p.id = run.program := by
  rw [← Scan.isSome_program?_iff, ← Run.isSuccess_iff, place]
  cases hrun : run.isSuccess with
  | false => simp [Except.toOption]
  | true => cases hprogram : scan.program? run.program <;> simp [Except.toOption]

/-! ## Searching -/

/-- The rows are in the order of the ids, and no id has two. -/
def Ascending (t : Timing) : Prop := (t.rows.map TimingRow.program).Pairwise (· < ·)

namespace Ascending

variable {t : Timing} (h : t.Ascending)

include h

theorem lt {i j : Nat} (hij : i < j) (hj : j < t.rows.length) :
    t.rows[i].program < t.rows[j].program := by
  have hPairs := List.pairwise_iff_getElem.mp h i j (by simp; omega) (by simpa using hj) hij
  simpa using hPairs

theorem probe_eq {i start size : Nat} (hi : i < t.rows.length) (hid : t.rows[i].program = id)
    (hLow : start ≤ i) (hHigh : i < start + size) (hSize : start + size ≤ t.rows.length) :
    probe t.rows.toArray id start size = i := by
  fun_induction probe t.rows.toArray id start size with
  | case1 start size hOne => omega
  | case2 start size hMore middle hLook ih =>
    have hMiddle : middle < t.rows.length := by omega
    have hBelow : id < t.rows[middle].program := by simpa [hMiddle] using hLook
    have hLess : i < middle := by
      by_contra hNot
      rcases Nat.lt_or_eq_of_le (Nat.le_of_not_lt hNot) with hlt | heq
      · exact ProgramId.lt_irrefl id (ProgramId.lt_trans hBelow (hid ▸ h.lt hlt hi))
      · subst heq
        exact ProgramId.lt_irrefl id (hid ▸ hBelow)
    exact ih hLow (by omega) (by omega)
  | case3 start size hMore middle hLook ih =>
    have hMiddle : middle < t.rows.length := by omega
    have hNotBelow : ¬ id < t.rows[middle].program := by simpa [hMiddle] using hLook
    have hLess : middle ≤ i := by
      by_contra hNot
      exact hNotBelow (hid ▸ h.lt (Nat.lt_of_not_le hNot) hMiddle)
    exact ih hLess (by omega) (by omega)

theorem row?_eq_some_iff {row : TimingRow} :
    t.row? id = some row ↔ row ∈ t.rows ∧ row.program = id := by
  rw [row?, Option.filter_eq_some_iff, decide_eq_true_eq, and_congr_left_iff]
  intro hid
  constructor
  · intro hFound
    exact List.mem_of_getElem? (by simpa using hFound)
  · intro hMem
    obtain ⟨i, hi, rfl⟩ := List.mem_iff_getElem.mp hMem
    rw [h.probe_eq hi hid (Nat.zero_le i) (by simpa using hi) (by simp)]
    simp [hi]

theorem row?_eq_find? (id : ProgramId) : t.row? id = t.rows.find? (·.program = id) := by
  refine Option.ext fun row => ?_
  rw [h.row?_eq_some_iff]
  constructor
  · rintro ⟨hMem, hid⟩
    obtain ⟨i, hi, rfl⟩ := List.mem_iff_getElem.mp hMem
    refine List.find?_eq_some_iff_getElem.mpr ⟨by simpa using hid, i, hi, rfl, fun j hj => ?_⟩
    have hlt := h.lt hj hi
    simp only [Bool.not_eq_true', decide_eq_false_iff_not]
    rintro rfl
    exact ProgramId.lt_irrefl _ (hid ▸ hlt)
  · intro hFound
    exact ⟨List.mem_of_find?_eq_some hFound, by simpa using List.find?_some hFound⟩

theorem isSome_row?_iff : (t.row? id).isSome = true ↔ id ∈ t.rows.map TimingRow.program := by
  rw [h.row?_eq_find?, List.find?_isSome]
  simp

end Ascending

/-! ## The report -/

theorem isSome_verdict?_iff :
    (verdict? runs scan extras id).isSome = true ↔ id ∈ runs.map Run.program := by
  rw [verdict?, Option.isSome_map, Run.isSome_latest?_iff]

theorem rows_compute (runs : List Run) (scan : Scan) (extras : Extras) :
    (compute runs scan extras).rows =
      (Run.programs runs).filterMap fun id => (verdict? runs scan extras id).bind Except.toOption := by
  have hrows : (compute runs scan extras).rows =
      (placed runs scan extras).filterMap fun x => x.2.toOption := rfl
  rw [hrows, placed, List.filterMap_filterMap]
  congr 1
  funext id
  rw [verdict?, Option.bind_map, Option.bind_map]
  rfl

theorem program_of_verdict? {row : TimingRow}
    (h : (verdict? runs scan extras id).bind Except.toOption = some row) : row.program = id := by
  rw [verdict?, Option.bind_map, Option.bind_eq_some_iff] at h
  obtain ⟨run, hrun, hplace⟩ := h
  cases hresult : place scan extras run with
  | error reason =>
    rw [Function.comp_apply, hresult] at hplace
    cases hplace
  | ok row' =>
    rw [Function.comp_apply, hresult] at hplace
    cases hplace
    exact (program_of_place hresult).trans (Run.program_of_latest? hrun)

theorem ascending_compute (runs : List Run) (scan : Scan) (extras : Extras) :
    (compute runs scan extras).Ascending := by
  rw [Ascending, rows_compute, map_filterMap fun id row => program_of_verdict?, List.map_id']
  exact (ProgramId.pairwise_ascending _).filter _

theorem row?_compute (runs : List Run) (scan : Scan) (extras : Extras) (id : ProgramId) :
    (compute runs scan extras).row? id = (verdict? runs scan extras id).bind Except.toOption := by
  rw [(ascending_compute ..).row?_eq_find?, rows_compute,
    find?_filterMap fun id row => program_of_verdict?]
  split
  · rfl
  · rename_i hmem
    rw [verdict?, Run.not_mem_programs hmem]
    rfl

theorem programs_of_rows (runs : List Run) (scan : Scan) (extras : Extras) :
    (compute runs scan extras).rows.map TimingRow.program =
      (Run.programs runs).filter fun id => ((compute runs scan extras).row? id).isSome := by
  rw [rows_compute, map_filterMap fun id row => program_of_verdict?, List.map_id']
  congr 1
  funext id
  rw [row?_compute]

theorem ordered_compute (runs : List Run) (scan : Scan) (extras : Extras) :
    (compute runs scan extras).dropped.Ordered :=
  (Tally.ordered_empty.recordAll _).1

theorem reason?_compute (runs : List Run) (scan : Scan) (extras : Extras) (id : ProgramId) :
    (compute runs scan extras).dropped.reason? id =
      (verdict? runs scan extras id).bind refusal? := by
  have hdropped : (compute runs scan extras).dropped =
      Tally.empty.recordAll ((Run.programs runs).filterMap fun id =>
        ((verdict? runs scan extras id).bind refusal?).map (id, ·)) := by
    refine congrArg Tally.empty.recordAll ?_
    rw [placed, List.filterMap_filterMap]
    congr 1
    funext id
    cases hrun : Run.latest? runs id with
    | none => simp [verdict?, hrun]
    | some run => cases hplace : place scan extras run <;> simp [verdict?, hrun, hplace, refusal?]
  have hkey : ∀ (id : ProgramId) (d : ProgramId × DropReason),
      ((verdict? runs scan extras id).bind refusal?).map (id, ·) = some d → d.1 = id := by
    intro id d h
    obtain ⟨reason, -, rfl⟩ := Option.map_eq_some_iff.mp h
    rfl
  rw [hdropped, (Tally.ordered_empty.recordAll _).2, firstReason?, find?_filterMap hkey]
  split
  · rw [Option.map_map]
    exact (Option.none_or ..).trans (Option.map_id' ..)
  · rename_i hmem
    rw [verdict?, Run.not_mem_programs hmem]
    rfl

end Timing

end Reanalysis
