import Mathlib.Data.List.Basic
import Reanalysis.Report.Tally

/-!
# Ascending ids and first reasons

A list of ids in strictly ascending order is determined by its members. A tally in that order is
determined by the reason of each id, and recording more drops leaves every reason that is there.
-/

namespace Reanalysis

namespace ProgramId

theorem lt_def {a b : ProgramId} : a < b ↔ a.number < b.number := Iff.rfl

theorem ext_number {a b : ProgramId} (h : a.number = b.number) : a = b := by
  cases a
  cases b
  cases h
  rfl

theorem lt_trans {a b c : ProgramId} (hab : a < b) (hbc : b < c) : a < c := Nat.lt_trans hab hbc

theorem lt_irrefl (a : ProgramId) : ¬ a < a := Nat.lt_irrefl a.number

theorem lt_of_not_lt_of_ne {a b : ProgramId} (hlt : ¬ a < b) (hne : a ≠ b) : b < a := by
  have hnumber : a.number ≠ b.number := fun h => hne (ext_number h)
  rw [lt_def] at hlt ⊢
  omega

theorem mem_insert {id x : ProgramId} {ids : List ProgramId} :
    x ∈ insert id ids ↔ x = id ∨ x ∈ ids := by
  induction ids with
  | nil => simp [insert]
  | cons other rest ih =>
    rw [insert]
    split
    · simp
    split
    · rename_i heq
      subst heq
      simp
    · simp only [List.mem_cons, ih, or_left_comm]

theorem mem_ascending {x : ProgramId} {ids : List ProgramId} : x ∈ ascending ids ↔ x ∈ ids := by
  induction ids with
  | nil => simp [ascending]
  | cons id ids ih =>
    have hstep : ascending (id :: ids) = insert id (ascending ids) := rfl
    rw [hstep, mem_insert, ih, List.mem_cons]

theorem pairwise_insert {id : ProgramId} {ids : List ProgramId} (h : ids.Pairwise (· < ·)) :
    (insert id ids).Pairwise (· < ·) := by
  induction ids with
  | nil => simp [insert]
  | cons other rest ih =>
    obtain ⟨hother, hrest⟩ := List.pairwise_cons.mp h
    rw [insert]
    split
    · rename_i hlt
      refine List.pairwise_cons.mpr ⟨fun x hx => ?_, h⟩
      rcases List.mem_cons.mp hx with rfl | hx
      · exact hlt
      · exact lt_trans hlt (hother x hx)
    split
    · exact h
    · rename_i hlt hne
      refine List.pairwise_cons.mpr ⟨fun x hx => ?_, ih hrest⟩
      rcases mem_insert.mp hx with rfl | hx
      · exact lt_of_not_lt_of_ne hlt hne
      · exact hother x hx

theorem pairwise_ascending (ids : List ProgramId) : (ascending ids).Pairwise (· < ·) := by
  induction ids with
  | nil => exact .nil
  | cons id ids ih => exact pairwise_insert ih

theorem nodup_of_pairwise {ids : List ProgramId} (h : ids.Pairwise (· < ·)) : ids.Nodup := by
  refine List.Pairwise.imp (fun {a b} hlt => ?_) h
  rintro rfl
  exact lt_irrefl a hlt

theorem eq_of_mem_iff {as bs : List ProgramId} (ha : as.Pairwise (· < ·))
    (hb : bs.Pairwise (· < ·)) (h : ∀ x, x ∈ as ↔ x ∈ bs) : as = bs := by
  induction as generalizing bs with
  | nil => exact (List.eq_nil_iff_forall_not_mem.mpr fun x hx => by simpa using (h x).mpr hx).symm
  | cons a as ih =>
    cases bs with
    | nil => simpa using (h a).mp List.mem_cons_self
    | cons b bs =>
      obtain ⟨hleast, has⟩ := List.pairwise_cons.mp ha
      obtain ⟨hleast', hbs⟩ := List.pairwise_cons.mp hb
      have hab : a = b := by
        rcases List.mem_cons.mp ((h a).mp List.mem_cons_self) with hab | hab
        · exact hab
        rcases List.mem_cons.mp ((h b).mpr List.mem_cons_self) with hba | hba
        · exact hba.symm
        · exact absurd (lt_trans (hleast b hba) (hleast' a hab)) (lt_irrefl a)
      subst hab
      rw [ih has hbs fun x => ?_]
      have hx := h x
      simp only [List.mem_cons] at hx
      by_cases hxa : x = a
      · subst hxa
        exact ⟨fun hmem => absurd (hleast x hmem) (lt_irrefl x),
          fun hmem => absurd (hleast' x hmem) (lt_irrefl x)⟩
      · simpa [hxa] using hx

end ProgramId

/-! ## First reasons -/

/-- The reason that a list of drops gives for an id first. -/
def firstReason? (drops : List (ProgramId × DropReason)) (id : ProgramId) : Option DropReason :=
  (drops.find? (·.1 = id)).map (·.2)

theorem firstReason?_cons (id other : ProgramId) (reason : DropReason)
    (drops : List (ProgramId × DropReason)) :
    firstReason? ((other, reason) :: drops) id =
      if other = id then some reason else firstReason? drops id := by
  by_cases h : other = id
  · simp [firstReason?, h]
  · simp [firstReason?, h]

theorem firstReason?_eq_none_iff {drops : List (ProgramId × DropReason)} {id : ProgramId} :
    firstReason? drops id = none ↔ id ∉ drops.map (·.1) := by
  simp only [firstReason?, Option.map_eq_none_iff, List.find?_eq_none, decide_eq_true_eq,
    List.mem_map, not_exists, not_and]

theorem firstReason?_eq_ite {drops : List (ProgramId × DropReason)} {reason : DropReason}
    (h : ∀ d ∈ drops, d.2 = reason) (id : ProgramId) :
    firstReason? drops id = if id ∈ drops.map (·.1) then some reason else none := by
  induction drops with
  | nil => rfl
  | cons d drops ih =>
    obtain ⟨other, given⟩ := d
    obtain rfl : given = reason := h _ List.mem_cons_self
    rw [firstReason?_cons, ih fun d hd => h d (List.mem_cons_of_mem _ hd)]
    by_cases heq : other = id
    · simp [heq]
    · rw [if_neg heq]
      refine if_congr ?_ rfl rfl
      rw [List.map_cons, List.mem_cons, or_iff_right (Ne.symm heq)]

theorem firstReason?_map (ids : List ProgramId) (reason : DropReason) (id : ProgramId) :
    firstReason? (ids.map (·, reason)) id = if id ∈ ids then some reason else none := by
  have hreason : ∀ d ∈ ids.map (·, reason), d.2 = reason := by
    intro d hd
    obtain ⟨other, -, rfl⟩ := List.mem_map.mp hd
    rfl
  have hids : (ids.map (·, reason)).map (·.1) = ids := by simp [Function.comp_def]
  rw [firstReason?_eq_ite hreason, hids]

namespace Tally

/-- Every id is named once, in the order of the ids. -/
def Ordered (t : Tally) : Prop := (t.drops.map (·.1)).Pairwise (· < ·)

theorem ordered_empty : empty.Ordered := .nil

theorem reason?_eq (t : Tally) (id : ProgramId) : t.reason? id = firstReason? t.drops id := rfl

theorem mem_drops_iff (t : Tally) (id : ProgramId) :
    id ∈ t.drops.map (·.1) ↔ (t.reason? id).isSome = true := by
  rw [reason?_eq, Option.isSome_iff_ne_none, ne_eq, firstReason?_eq_none_iff, not_not]

theorem Ordered.mem_drops_iff_reason? {t : Tally} (h : t.Ordered) {id : ProgramId}
    {reason : DropReason} : (id, reason) ∈ t.drops ↔ t.reason? id = some reason := by
  rw [Ordered] at h
  rw [reason?_eq]
  generalize t.drops = drops at h
  induction drops with
  | nil => simp [firstReason?]
  | cons d drops ih =>
    obtain ⟨other, given⟩ := d
    obtain ⟨hother, hdrops⟩ := List.pairwise_cons.mp h
    rw [List.mem_cons, firstReason?_cons, ih hdrops]
    by_cases heq : other = id
    · subst heq
      have hnone : firstReason? drops other = none :=
        firstReason?_eq_none_iff.mpr fun hmem => ProgramId.lt_irrefl other (hother other hmem)
      simp [hnone, eq_comm]
    · simp [heq, Ne.symm heq]

theorem map_insertDrop (id : ProgramId) (reason : DropReason)
    (drops : List (ProgramId × DropReason)) :
    (insertDrop id reason drops).map (·.1) = ProgramId.insert id (drops.map (·.1)) := by
  induction drops with
  | nil => rfl
  | cons d drops ih =>
    obtain ⟨other, given⟩ := d
    rw [insertDrop, List.map_cons, ProgramId.insert]
    split
    · rfl
    split
    · rfl
    · rw [List.map_cons, ih]

theorem Ordered.record {t : Tally} (h : t.Ordered) (id : ProgramId) (reason : DropReason) :
    (t.record id reason).Ordered := by
  rw [Ordered, Tally.record, map_insertDrop]
  exact ProgramId.pairwise_insert h

theorem firstReason?_insertDrop {drops : List (ProgramId × DropReason)}
    (h : (drops.map (·.1)).Pairwise (· < ·)) (id other : ProgramId) (reason : DropReason) :
    firstReason? (insertDrop other reason drops) id =
      (firstReason? drops id).or (if other = id then some reason else none) := by
  induction drops with
  | nil =>
    rw [insertDrop, firstReason?_cons]
    rfl
  | cons d drops ih =>
    obtain ⟨first, given⟩ := d
    obtain ⟨hfirst, hdrops⟩ := List.pairwise_cons.mp h
    rw [insertDrop]
    split
    · rename_i hlt
      rw [firstReason?_cons]
      split
      · rename_i heq
        subst heq
        -- The id is below all that are there, so no reason is lost by putting it in front.
        have hnone : firstReason? ((first, given) :: drops) other = none := by
          rw [firstReason?_eq_none_iff, List.map_cons, List.mem_cons]
          rintro (rfl | hmem)
          · exact ProgramId.lt_irrefl _ hlt
          · exact ProgramId.lt_irrefl _ (ProgramId.lt_trans hlt (hfirst other hmem))
        rw [hnone, Option.none_or]
      · rw [Option.or_none]
    split
    · rename_i heq
      subst heq
      rw [firstReason?_cons]
      split
      · rw [Option.some_or]
      · rw [Option.or_none]
    · rw [firstReason?_cons, firstReason?_cons, ih hdrops]
      split
      · rw [Option.some_or]
      · rfl

theorem Ordered.reason?_record {t : Tally} (h : t.Ordered) (id other : ProgramId)
    (reason : DropReason) :
    (t.record other reason).reason? id =
      (t.reason? id).or (if other = id then some reason else none) :=
  firstReason?_insertDrop h id other reason

theorem Ordered.recordAll {t : Tally} (h : t.Ordered) (drops : List (ProgramId × DropReason)) :
    (t.recordAll drops).Ordered ∧
      ∀ id, (t.recordAll drops).reason? id = (t.reason? id).or (firstReason? drops id) := by
  induction drops generalizing t with
  | nil => exact ⟨h, fun id => (Option.or_none ..).symm⟩
  | cons d drops ih =>
    obtain ⟨other, reason⟩ := d
    have hstep : t.recordAll ((other, reason) :: drops) =
        (t.record other reason).recordAll drops := rfl
    obtain ⟨hordered, hreason⟩ := ih (h.record other reason)
    refine ⟨hstep ▸ hordered, fun id => ?_⟩
    rw [hstep, hreason, h.reason?_record, Option.or_assoc, firstReason?_cons]
    by_cases heq : other = id
    · simp [heq]
    · simp [heq]

theorem malformed_recordAll (t : Tally) (drops : List (ProgramId × DropReason)) :
    (t.recordAll drops).malformed = t.malformed := by
  induction drops generalizing t with
  | nil => rfl
  | cons d drops ih => exact ih (t.record d.1 d.2)

theorem Ordered.merge {t : Tally} (h : t.Ordered) (other : Tally) :
    (t.merge other).Ordered ∧
      ∀ id, (t.merge other).reason? id = (t.reason? id).or (other.reason? id) :=
  h.recordAll other.drops

theorem drops_eq_of_firstReason? {as bs : List (ProgramId × DropReason)}
    (hids : as.map (·.1) = bs.map (·.1)) (hnodup : (as.map (·.1)).Pairwise (· < ·))
    (h : ∀ id, firstReason? as id = firstReason? bs id) : as = bs := by
  induction as generalizing bs with
  | nil => simpa using hids.symm
  | cons a as ih =>
    cases bs with
    | nil => cases hids
    | cons b bs =>
      obtain ⟨id, reason⟩ := a
      obtain ⟨id', reason'⟩ := b
      rw [List.map_cons, List.map_cons, List.cons.injEq] at hids
      obtain ⟨rfl, hids⟩ := hids
      obtain ⟨hleast, htail⟩ := List.pairwise_cons.mp hnodup
      have hreason := h id
      rw [firstReason?_cons, firstReason?_cons, if_pos rfl, if_pos rfl, Option.some.injEq] at hreason
      rw [hreason, ih hids htail fun x => ?_]
      by_cases hx : id = x
      · subst hx
        have hnot : id ∉ as.map (·.1) := fun hmem => ProgramId.lt_irrefl _ (hleast id hmem)
        rw [firstReason?_eq_none_iff.mpr hnot, firstReason?_eq_none_iff.mpr (hids ▸ hnot)]
      · simpa [firstReason?_cons, hx] using h x

theorem Ordered.eq_of_reason? {t u : Tally} (ht : t.Ordered) (hu : u.Ordered)
    (hmalformed : t.malformed = u.malformed) (h : ∀ id, t.reason? id = u.reason? id) : t = u := by
  have hids : t.drops.map (·.1) = u.drops.map (·.1) := by
    refine ProgramId.eq_of_mem_iff ht hu fun id => ?_
    rw [mem_drops_iff, mem_drops_iff, h id]
  have hdrops : t.drops = u.drops := drops_eq_of_firstReason? hids ht h
  cases t
  cases u
  cases hdrops
  cases hmalformed
  rfl

theorem Ordered.recordAll_eq {t : Tally} (ht : t.Ordered) {as bs : List (ProgramId × DropReason)}
    (h : ∀ id, firstReason? as id = firstReason? bs id) : t.recordAll as = t.recordAll bs := by
  obtain ⟨has, hreason⟩ := ht.recordAll as
  obtain ⟨hbs, hreason'⟩ := ht.recordAll bs
  refine has.eq_of_reason? hbs ?_ fun id => ?_
  · rw [malformed_recordAll, malformed_recordAll]
  · rw [hreason, hreason', h]

end Tally

end Reanalysis
