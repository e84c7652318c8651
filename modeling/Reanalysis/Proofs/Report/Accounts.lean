import Reanalysis.Proofs.Report.Timing
import Reanalysis.Report.Targeted

/-!
# Every program of a targeted comparison is accounted for once

A program that was run, or whose diff failed before it could be run, has a row or is dropped, and
never both. Its reason is that of the full run if there is one, then that of the targeted run, then
the failed diff.
-/

namespace Reanalysis

/-- The last run of the program came to a good end. -/
def Run.Succeeds (runs : List Run) (id : ProgramId) : Prop :=
  ∃ r, latest? runs id = some r ∧ r.code = 0 ∧ r.status = .ok

def Scan.Records (scan : Scan) (id : ProgramId) : Prop := ∃ p ∈ scan.programs, p.id = id

def Skip.isDiffFailed : Skip → Bool
  | .diffFailed _ => true
  | .missingSource _ => false

/-- A targeted step of the program was given up because its diff failed. -/
def Skip.Entry.diffFailed (skips : List Skip.Entry) (id : ProgramId) : Bool :=
  skips.any fun e => e.program = id && e.skip.isDiffFailed

namespace Timing

variable {runs : List Run} {scan : Scan} {extras : Extras} {id : ProgramId}

theorem verdict?_cases (runs : List Run) (scan : Scan) (extras : Extras) (id : ProgramId) :
    (verdict? runs scan extras id = none ∧ id ∉ runs.map Run.program) ∨
    ((∃ row, verdict? runs scan extras id = some (.ok row)) ∧ id ∈ runs.map Run.program) ∨
    ((∃ reason, verdict? runs scan extras id = some (.error reason)) ∧
      id ∈ runs.map Run.program) := by
  have hmem := @isSome_verdict?_iff runs scan extras id
  cases h : verdict? runs scan extras id with
  | none =>
    rw [h] at hmem
    exact .inl ⟨rfl, fun hin => by simpa using hmem.mpr hin⟩
  | some verdict =>
    rw [h] at hmem
    have hin := hmem.mp rfl
    cases verdict with
    | ok row => exact .inr (.inl ⟨⟨row, rfl⟩, hin⟩)
    | error reason => exact .inr (.inr ⟨⟨reason, rfl⟩, hin⟩)

theorem isSome_row?_iff :
    ((compute runs scan extras).row? id).isSome = true ↔
      Run.Succeeds runs id ∧ scan.Records id := by
  rw [row?_compute, verdict?, Option.bind_map]
  cases hrun : Run.latest? runs id with
  | none => simp [Run.Succeeds, hrun]
  | some run =>
    have hid := Run.program_of_latest? hrun
    rw [Option.bind_some, Function.comp_apply, isSome_toOption_place_iff, hid]
    simp [Run.Succeeds, hrun, Scan.Records]

end Timing

namespace TargetedComparison

/-- The runs that answer a targeted request. -/
def answers (targeted : List Run) : List Run :=
  targeted.filter fun r => r.mode = .targeted || r.mode = .cold

theorem filter_isIncremental (targeted : List Run) :
    targeted.filter (·.mode.isIncremental) = answers targeted := by
  rw [answers]
  congr 1
  funext r
  cases r.mode <;> rfl

/-- The diff of the program failed, and there is no run in answer to a request for it. -/
def Abandoned (skips : List Skip.Entry) (runs : List Run) (id : ProgramId) : Prop :=
  Skip.Entry.diffFailed skips id = true ∧ id ∉ runs.map Run.program

instance (skips : List Skip.Entry) (runs : List Run) (id : ProgramId) :
    Decidable (Abandoned skips runs id) :=
  inferInstanceAs (Decidable (_ ∧ _))

theorem firstReason?_failedDiffs (runs : List Run) (skips : List Skip.Entry) (id : ProgramId) :
    firstReason? (failedDiffs runs skips) id =
      if Abandoned skips runs id then some .diffFailed else none := by
  have hmem : ∀ d, d ∈ failedDiffs runs skips ↔ d.2 = .diffFailed ∧ Abandoned skips runs d.1 := by
    intro d
    obtain ⟨other, reason⟩ := d
    rw [Abandoned, ← Run.isSome_latest?_iff]
    simp only [failedDiffs, List.mem_filterMap, Skip.Entry.diffFailed, List.any_eq_true,
      Bool.and_eq_true, decide_eq_true_eq]
    constructor
    · rintro ⟨e, he, hd⟩
      split at hd
      · rename_i message hskip
        split at hd
        · rename_i hnone
          cases hd
          refine ⟨rfl, ⟨e, he, rfl, by rw [hskip]; rfl⟩, ?_⟩
          rw [Option.isNone_iff_eq_none.mp hnone]
          simp
        · cases hd
      · cases hd
    · rintro ⟨rfl, ⟨e, he, rfl, hskip⟩, hnone⟩
      refine ⟨e, he, ?_⟩
      cases hreason : e.skip with
      | missingSource path =>
        rw [hreason] at hskip
        cases hskip
      | diffFailed message => simpa using hnone
  rw [firstReason?_eq_ite fun d hd => ((hmem d).mp hd).1]
  refine if_congr ?_ rfl rfl
  rw [List.mem_map]
  constructor
  · rintro ⟨d, hd, rfl⟩
    exact ((hmem d).mp hd).2
  · intro h
    exact ⟨(id, .diffFailed), (hmem _).mpr ⟨rfl, h⟩, rfl⟩

theorem firstReason?_unpaired {side : Timing} (hSide : side.Ascending) (other : Timing)
    (id : ProgramId) :
    firstReason? (unpaired side other) id =
      if (side.row? id).isSome = true ∧ (other.row? id).isNone = true then
        some .missingInOtherMode
      else none := by
  have hreason : ∀ d ∈ unpaired side other, d.2 = .missingInOtherMode := by
    intro d hd
    obtain ⟨r, -, rfl⟩ := List.mem_map.mp hd
    rfl
  rw [firstReason?_eq_ite hreason]
  refine if_congr ?_ rfl rfl
  rw [hSide.isSome_row?_iff]
  simp only [unpaired, List.map_map, List.mem_map, List.mem_filter, Function.comp_apply]
  constructor
  · rintro ⟨r, ⟨hr, hnone⟩, rfl⟩
    exact ⟨⟨r, hr, rfl⟩, hnone⟩
  · rintro ⟨⟨r, hr, rfl⟩, hnone⟩
    exact ⟨r, ⟨hr, hnone⟩, rfl⟩

variable (full targeted : List Run) (skips : List Skip.Entry) (scan : Scan)
  (cacheBytes : List (ProgramId × Nat)) (overhead : Option Overhead)

theorem programs_of_rows :
    (compute full targeted skips scan cacheBytes overhead).rows.map TargetedRow.program =
      (Run.programs full).filter fun id =>
        ((Timing.compute full scan ⟨cacheBytes, []⟩).row? id).isSome &&
          ((Timing.compute (answers targeted) scan ⟨cacheBytes, []⟩).row? id).isSome := by
  have hpair : ∀ (t : Timing) (rows : List TimingRow),
      (rows.filterMap fun r => (t.row? r.program).map (pair overhead r)).map TargetedRow.program =
        (rows.map TimingRow.program).filter fun id => (t.row? id).isSome := by
    intro t rows
    induction rows with
    | nil => rfl
    | cons r rows ih =>
      cases hrow : t.row? r.program with
      | none =>
        rw [List.filterMap_cons_none (by rw [hrow]; rfl), List.map_cons,
          List.filter_cons_of_neg (by rw [hrow]; simp), ih]
      | some other =>
        rw [List.filterMap_cons_some (by rw [hrow]; rfl), List.map_cons, List.map_cons,
          List.filter_cons_of_pos (by rw [hrow]; rfl), ih]
        rfl
  rw [compute, filter_isIncremental, hpair, Timing.programs_of_rows, List.filter_filter]
  congr 1
  funext id
  rw [Bool.and_comm]

theorem dropped_compute :
    (compute full targeted skips scan cacheBytes overhead).dropped.Ordered ∧
      ∀ id, (compute full targeted skips scan cacheBytes overhead).dropped.reason? id =
        let f := Timing.compute full scan ⟨cacheBytes, []⟩
        let t := Timing.compute (answers targeted) scan ⟨cacheBytes, []⟩
        ((((f.dropped.reason? id).or (t.dropped.reason? id)).or
          (firstReason? (failedDiffs (answers targeted) skips) id)).or
          (firstReason? (unpaired f t) id)).or (firstReason? (unpaired t f) id) := by
  rw [compute, filter_isIncremental]
  have hfull := Timing.ordered_compute full scan ⟨cacheBytes, []⟩
  obtain ⟨hmerged, hmerge⟩ := hfull.merge (Timing.compute (answers targeted) scan ⟨cacheBytes, []⟩).dropped
  obtain ⟨hdiffs, hdiff⟩ := hmerged.recordAll (failedDiffs (answers targeted) skips)
  obtain ⟨hfirst, hunpaired⟩ := hdiffs.recordAll
    (unpaired (Timing.compute full scan ⟨cacheBytes, []⟩)
      (Timing.compute (answers targeted) scan ⟨cacheBytes, []⟩))
  obtain ⟨hsecond, hunpaired'⟩ := hfirst.recordAll
    (unpaired (Timing.compute (answers targeted) scan ⟨cacheBytes, []⟩)
      (Timing.compute full scan ⟨cacheBytes, []⟩))
  refine ⟨hsecond, fun id => ?_⟩
  rw [hunpaired', hunpaired, hdiff, hmerge]

theorem reason?_compute (id : ProgramId) :
    (compute full targeted skips scan cacheBytes overhead).dropped.reason? id =
      let f := Timing.compute full scan ⟨cacheBytes, []⟩
      let t := Timing.compute (answers targeted) scan ⟨cacheBytes, []⟩
      if (f.row? id).isSome = true ∧ (t.row? id).isSome = true then none
      else if id ∈ full.map Run.program ∨ id ∈ (answers targeted).map Run.program ∨
          Abandoned skips (answers targeted) id then
        some (((f.dropped.reason? id).or (t.dropped.reason? id)).getD
          (if Abandoned skips (answers targeted) id then .diffFailed else .missingInOtherMode))
      else none := by
  rw [(dropped_compute full targeted skips scan cacheBytes overhead).2 id]
  simp only [firstReason?_failedDiffs, firstReason?_unpaired (Timing.ascending_compute ..),
    Timing.reason?_compute, Timing.row?_compute, Abandoned]
  have hfull := Timing.verdict?_cases full scan ⟨cacheBytes, []⟩ id
  have hanswers := Timing.verdict?_cases (answers targeted) scan ⟨cacheBytes, []⟩ id
  rcases hfull with ⟨hf, hran⟩ | ⟨⟨row, hf⟩, hran⟩ | ⟨⟨reason, hf⟩, hran⟩ <;>
  rcases hanswers with ⟨ht, hran'⟩ | ⟨⟨row', ht⟩, hran'⟩ | ⟨⟨reason', ht⟩, hran'⟩ <;>
  by_cases hdiff : Skip.Entry.diffFailed skips id = true <;>
  simp [hf, ht, hran, hran', hdiff, Timing.refusal?, Except.toOption]

/-- A program is kept or dropped, but not both, as soon as anything is known of it. -/
theorem kept_or_dropped_iff (id : ProgramId) :
    let c := compute full targeted skips scan cacheBytes overhead
    ¬ (id ∈ c.rows.map TargetedRow.program ∧ id ∈ c.dropped.drops.map (·.1)) ∧
    (id ∈ c.rows.map TargetedRow.program ∨ id ∈ c.dropped.drops.map (·.1) ↔
      id ∈ full.map Run.program ∨ id ∈ (answers targeted).map Run.program ∨
        Abandoned skips (answers targeted) id) := by
  intro c
  rw [programs_of_rows, c.dropped.mem_drops_iff, reason?_compute, List.mem_filter, Bool.and_eq_true,
    Run.mem_programs_iff]
  dsimp only
  split
  · rename_i hRows
    obtain ⟨⟨r, hr, -⟩, -⟩ := Timing.isSome_row?_iff.mp hRows.1
    have hRan : id ∈ full.map Run.program := Run.isSome_latest?_iff.mp (by rw [hr]; rfl)
    simp [hRan, hRows]
  · rename_i hRows
    split
    · rename_i hKnown
      exact ⟨fun hBoth => hRows hBoth.1.2, fun _ => hKnown, fun _ => .inr rfl⟩
    · rename_i hUnknown
      refine ⟨fun hBoth => hRows hBoth.1.2, ?_, fun hKnown => absurd hKnown hUnknown⟩
      rintro (hKept | hDropped)
      · exact absurd hKept.2 hRows
      · cases hDropped

/-- What a comparison has to say about the programs behind it. `f` and `t` are the timing reports of
the full runs and of the runs in answer to targeted requests. -/
structure Accounts (full answering : List Run) (skips : List Skip.Entry) (scan : Scan)
    (f t : Timing) (c : TargetedComparison) : Prop where
  kept_ascending : (c.rows.map TargetedRow.program).Pairwise (· < ·)
  dropped_ascending : (c.dropped.drops.map (·.1)).Pairwise (· < ·)
  kept_iff : ∀ id, id ∈ c.rows.map TargetedRow.program ↔
    Run.Succeeds full id ∧ Run.Succeeds answering id ∧ scan.Records id
  apart : ∀ id, ¬ (id ∈ c.rows.map TargetedRow.program ∧ id ∈ c.dropped.drops.map (·.1))
  complete : ∀ id, id ∈ c.rows.map TargetedRow.program ∨ id ∈ c.dropped.drops.map (·.1) ↔
    id ∈ full.map Run.program ∨ id ∈ answering.map Run.program ∨ Abandoned skips answering id
  /-- The first of the reasons on either side, then the failed diff, then the missing partner. -/
  reason : ∀ id reason, c.dropped.reason? id = some reason ↔
    id ∈ c.dropped.drops.map (·.1) ∧
      reason = ((f.dropped.reason? id).or (t.dropped.reason? id)).getD
        (if Abandoned skips answering id then .diffFailed else .missingInOtherMode)

theorem every_program_accounted_once (full targeted : List Run) (skips : List Skip.Entry)
    (scan : Scan) (cacheBytes : List (ProgramId × Nat)) (overhead : Option Overhead) :
    Accounts full (answers targeted) skips scan (Timing.compute full scan ⟨cacheBytes, []⟩)
      (Timing.compute (answers targeted) scan ⟨cacheBytes, []⟩)
      (compute full targeted skips scan cacheBytes overhead) := by
  set c := compute full targeted skips scan cacheBytes overhead
  set f := Timing.compute full scan ⟨cacheBytes, []⟩
  set t := Timing.compute (answers targeted) scan ⟨cacheBytes, []⟩
  have hkept : c.rows.map TargetedRow.program =
      (Run.programs full).filter fun id => (f.row? id).isSome && (t.row? id).isSome :=
    programs_of_rows full targeted skips scan cacheBytes overhead
  have hran : ∀ id, (f.row? id).isSome = true → id ∈ full.map Run.program := by
    intro id hrow
    obtain ⟨⟨r, hr, -⟩, -⟩ := Timing.isSome_row?_iff.mp hrow
    exact Run.isSome_latest?_iff.mp (by rw [hr]; rfl)
  have hmem : ∀ id, id ∈ c.rows.map TargetedRow.program ↔
      (f.row? id).isSome = true ∧ (t.row? id).isSome = true := by
    intro id
    rw [hkept, List.mem_filter, Bool.and_eq_true, and_iff_right_iff_imp]
    exact fun hrows => Run.mem_programs_iff.mpr (hran id hrows.1)
  have hleft : ∀ id, id ∈ c.dropped.drops.map (·.1) ↔ (c.dropped.reason? id).isSome = true :=
    fun id => c.dropped.mem_drops_iff id
  have hreason : ∀ id, c.dropped.reason? id =
      if (f.row? id).isSome = true ∧ (t.row? id).isSome = true then none
      else if id ∈ full.map Run.program ∨ id ∈ (answers targeted).map Run.program ∨
          Abandoned skips (answers targeted) id then
        some (((f.dropped.reason? id).or (t.dropped.reason? id)).getD
          (if Abandoned skips (answers targeted) id then .diffFailed else .missingInOtherMode))
      else none := reason?_compute full targeted skips scan cacheBytes overhead
  refine ⟨?_, (dropped_compute full targeted skips scan cacheBytes overhead).1, ?_, ?_, ?_, ?_⟩
  · rw [hkept]
    exact (ProgramId.pairwise_ascending _).filter _
  · intro id
    rw [hmem, Timing.isSome_row?_iff, Timing.isSome_row?_iff]
    tauto
  · rintro id ⟨hin, hout⟩
    rw [hleft, hreason, if_pos ((hmem id).mp hin)] at hout
    cases hout
  · intro id
    rw [hleft, hreason, hmem]
    split
    · rename_i hrows
      exact ⟨fun _ => .inl (hran id hrows.1), fun _ => .inl hrows⟩
    · rename_i hrows
      rw [or_iff_right hrows]
      split
      · rename_i hknown
        exact ⟨fun _ => hknown, fun _ => rfl⟩
      · rename_i hunknown
        exact ⟨fun h => (by cases h), fun h => absurd h hunknown⟩
  · intro id reason
    rw [hleft, hreason]
    split
    · simp
    split
    · rw [Option.some.injEq, Option.isSome_some]
      exact ⟨fun h => ⟨rfl, h.symm⟩, fun h => h.2.symm⟩
    · simp

end TargetedComparison

end Reanalysis
