import Reanalysis.Report.Summary

/-!
# Summaries and the order of values

Floats are put in the total order of their bits, in which only equal floats are level. So the values
that a summary is made from come in the same order whatever order they are given in
(`ascending_eq_of_perm`), and everything that is computed from them comes out the same.
-/

namespace Reanalysis

/-! ## The total order -/

theorem float_ext {x y : Float} (h : x.toBits = y.toBits) : x = y := by
  obtain ⟨⟨bits, valid⟩⟩ := x
  obtain ⟨⟨bits', valid'⟩⟩ := y
  cases (show bits = bits' from h)
  rfl

theorem orderKey_inj {x y : Float} (h : orderKey x = orderKey y) : x = y := by
  apply float_ext
  apply UInt64.toNat.inj
  simp only [orderKey] at h
  split at h <;> split at h <;> omega

theorem floatLe_iff (x y : Float) : floatLe x y = true ↔ orderKey x ≤ orderKey y := decide_eq_true_iff

theorem floatLe_trans {x y z : Float} (hxy : floatLe x y = true) (hyz : floatLe y z = true) :
    floatLe x z = true := by
  rw [floatLe_iff] at *
  omega

theorem floatLe_total (x y : Float) : (floatLe x y || floatLe y x) = true := by
  rw [Bool.or_eq_true, floatLe_iff, floatLe_iff]
  omega

theorem floatLe_antisymm {x y : Float} (hxy : floatLe x y = true) (hyx : floatLe y x = true) :
    x = y := by
  rw [floatLe_iff] at hxy hyx
  exact orderKey_inj (by omega)

theorem sorted_mergeSort_floatLe (xs : List Float) :
    (xs.mergeSort floatLe).Pairwise (floatLe · · = true) :=
  List.pairwise_mergeSort (fun x y z => @floatLe_trans x y z) floatLe_total xs

theorem mergeSort_floatLe_of_perm {xs ys : List Float} (h : xs.Perm ys) :
    xs.mergeSort floatLe = ys.mergeSort floatLe := by
  have hPerm : (xs.mergeSort floatLe).Perm (ys.mergeSort floatLe) :=
    (List.mergeSort_perm xs floatLe).trans (h.trans (List.mergeSort_perm ys floatLe).symm)
  exact hPerm.eq_of_pairwise (fun _ _ _ _ => floatLe_antisymm) (sorted_mergeSort_floatLe xs)
    (sorted_mergeSort_floatLe ys)

/-! ## The values in their order -/

namespace Summary

theorem ascending_eq_of_perm {xs ys : List Float} (h : xs.Perm ys) : ascending xs = ascending ys :=
  mergeSort_floatLe_of_perm (h.filter _)

theorem ascending_eq_nil_iff (xs : List Float) : ascending xs = [] ↔ ∀ x ∈ xs, x.isFinite = false := by
  rw [ascending, ← List.length_eq_zero_iff, List.length_mergeSort, List.length_eq_zero_iff,
    List.filter_eq_nil_iff]
  simp

theorem middle?_eq {xs : List Float} (h : 0 < xs.length) :
    middle? xs = some (if xs.length % 2 = 0 then (xs[xs.length / 2 - 1] + xs[xs.length / 2]) / 2.0
      else xs[xs.length / 2]) := by
  have hHigh : xs.length / 2 < xs.length := by omega
  have hLow : xs.length / 2 - 1 < xs.length := by omega
  rw [middle?, List.getElem?_eq_getElem hHigh, List.getElem?_eq_getElem hLow]
  dsimp only [bind, Option.bind, pure]
  split <;> rfl

theorem of?_eq {xs : List Float} (h : 0 < (ascending xs).length) :
    of? xs = some (
      let sorted := ascending xs
      { count := sorted.length
        mean := floatSum sorted / Json.floatOfNat sorted.length
        median := if sorted.length % 2 = 0 then
            (sorted[sorted.length / 2 - 1] + sorted[sorted.length / 2]) / 2.0
          else sorted[sorted.length / 2]
        min := sorted[0]
        max := sorted[sorted.length - 1] }) := by
  rw [of?, middle?_eq h, List.head?_eq_getElem?, List.getLast?_eq_getElem?,
    List.getElem?_eq_getElem h, List.getElem?_eq_getElem (by omega)]
  rfl

theorem of?_of_ascending_nil {xs : List Float} (h : ascending xs = []) : of? xs = none := by
  rw [of?, h]
  rfl

theorem of?_eq_none_iff (xs : List Float) : of? xs = none ↔ ∀ x ∈ xs, x.isFinite = false := by
  rw [← ascending_eq_nil_iff]
  rcases Nat.eq_zero_or_pos (ascending xs).length with hZero | hPos
  · have hNil := List.length_eq_zero_iff.mp hZero
    exact iff_of_true (of?_of_ascending_nil hNil) hNil
  · rw [of?_eq hPos]
    exact iff_of_false (Option.some_ne_none _) (List.ne_nil_of_length_pos hPos)

/-- A summary is the same for the same values in any order. There is none exactly when no value is
finite; otherwise it is made from the finite values in ascending order, and the values in the middle and
at both ends are all there. -/
theorem same_for_reordered_values {xs ys : List Float} (h : xs.Perm ys) :
    ascending xs = ascending ys ∧ of? xs = of? ys ∧
    (of? xs = none ↔ ∀ x ∈ xs, x.isFinite = false) ∧
    ∀ s, of? xs = some s →
      let sorted := ascending xs
      sorted.Perm (xs.filter Float.isFinite) ∧
      sorted.Pairwise (floatLe · · = true) ∧
      ∃ (_ : 0 < sorted.length) (_ : sorted.length / 2 < sorted.length)
        (_ : sorted.length % 2 = 0 → 1 ≤ sorted.length / 2),
        s.count = sorted.length ∧
        s.mean = floatSum sorted / Json.floatOfNat sorted.length ∧
        s.median = (if sorted.length % 2 = 0 then
          (sorted[sorted.length / 2 - 1] + sorted[sorted.length / 2]) / 2.0
          else sorted[sorted.length / 2]) ∧
        s.min = sorted[0] ∧ s.max = sorted[sorted.length - 1] := by
  have hSame := ascending_eq_of_perm h
  refine ⟨hSame, ?_, of?_eq_none_iff xs, ?_⟩
  · rw [of?, of?, hSame]
  · intro s hs sorted
    have hPos : 0 < sorted.length := by
      rw [List.length_pos_iff]
      intro hNil
      rw [of?_of_ascending_nil hNil] at hs
      cases hs
    rw [of?_eq hPos] at hs
    cases hs
    exact ⟨List.mergeSort_perm _ _, sorted_mergeSort_floatLe _, hPos, by omega, by omega, rfl, rfl, rfl,
      rfl, rfl⟩

/-- Zeros of both signs, with what is not finite between them. -/
theorem zeros_in_either_order :
    of? [0.0, 0.0 / 0.0, -0.0, 1.0 / 0.0, -0.0] = of? [-0.0, 1.0 / 0.0, -0.0, 0.0, 0.0 / 0.0] ∧
      of? [0.0, 0.0 / 0.0, -0.0, 1.0 / 0.0, -0.0] ≠ none := by
  have hPerm : ([0.0, 0.0 / 0.0] ++ [-0.0, 1.0 / 0.0, -0.0]).Perm
      ([-0.0, 1.0 / 0.0, -0.0] ++ [0.0, 0.0 / 0.0]) := List.perm_append_comm
  obtain ⟨-, hSame, hNone, -⟩ := same_for_reordered_values hPerm
  refine ⟨hSame, fun hEq => ?_⟩
  have hZero := hNone.mp hEq 0.0 List.mem_cons_self
  cases hZero

end Summary

end Reanalysis
