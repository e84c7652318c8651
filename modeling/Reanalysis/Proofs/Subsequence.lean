import Reanalysis.Proofs.Comparison

/-!
# Alignments keep a longest common subsequence

`Longest` follows the cases in which the table of scripts is filled. Where both lists start
with one key, a common subsequence loses at most its first element when that key is dropped from
both lists, so keeping the pair at once costs nothing.
-/

namespace Reanalysis

namespace Alignment

section Common

variable {κ : Type} {x y : κ} {xs ys : List κ} {n k : Nat}

/-- The longest lists that are left of both `xs` and `ys` by dropping elements have length `n`. -/
structure Longest (xs ys : List κ) (n : Nat) : Prop where
  attained : ∃ zs : List κ, zs.Sublist xs ∧ zs.Sublist ys ∧ zs.length = n
  bound {zs : List κ} : zs.Sublist xs → zs.Sublist ys → zs.length ≤ n

theorem longest_nil_left (ys : List κ) : Longest [] ys 0 where
  attained := ⟨[], List.nil_sublist _, List.nil_sublist _, rfl⟩
  bound hLeft _ := hLeft.length_le

theorem longest_nil_right (xs : List κ) : Longest xs [] 0 where
  attained := ⟨[], List.nil_sublist _, List.nil_sublist _, rfl⟩
  bound _ hRight := hRight.length_le

theorem Longest.unique (hn : Longest xs ys n) (hk : Longest xs ys k) : n = k := by
  obtain ⟨zs, hLeft, hRight, rfl⟩ := hn.attained
  obtain ⟨ws, hLeft', hRight', rfl⟩ := hk.attained
  exact Nat.le_antisymm (hk.bound hLeft hRight) (hn.bound hLeft' hRight')

theorem sublist_of_cons_sublist_cons {z : κ} {zs : List κ} (h : (z :: zs).Sublist (x :: xs)) :
    zs.Sublist xs := by
  rcases List.sublist_cons_iff.mp h with h | ⟨rest, hRest, h⟩
  · exact (List.sublist_cons_self z zs).trans h
  · obtain ⟨_, rfl⟩ := List.cons.inj hRest
    exact h

theorem Longest.cons_self (h : Longest xs ys n) (x : κ) :
    Longest (x :: xs) (x :: ys) (n + 1) := by
  constructor
  · obtain ⟨zs, hLeft, hRight, hLength⟩ := h.attained
    exact ⟨x :: zs, hLeft.cons_cons x, hRight.cons_cons x, congrArg (· + 1) hLength⟩
  · intro zs hLeft hRight
    cases zs with
    | nil => exact Nat.zero_le _
    | cons z zs =>
      apply Nat.succ_le_succ
      exact h.bound (sublist_of_cons_sublist_cons hLeft) (sublist_of_cons_sublist_cons hRight)

/-- Lists that start apart: a common subsequence does without one of the two first elements. -/
theorem sublist_cases_of_ne (hApart : x ≠ y) {zs : List κ} (hLeft : zs.Sublist (x :: xs))
    (hRight : zs.Sublist (y :: ys)) : zs.Sublist xs ∨ zs.Sublist ys := by
  rcases List.sublist_cons_iff.mp hLeft with hLeft | ⟨left, rfl, _⟩
  · exact .inl hLeft
  · rcases List.sublist_cons_iff.mp hRight with hRight | ⟨right, hEq, _⟩
    · exact .inr hRight
    · exact absurd (List.cons.inj hEq).1 hApart

theorem Longest.cons_left (hApart : x ≠ y) (hDown : Longest xs (y :: ys) n)
    (hNext : Longest (x :: xs) ys k) (hMore : k ≤ n) : Longest (x :: xs) (y :: ys) n := by
  constructor
  · obtain ⟨zs, hLeft, hRight, hLength⟩ := hDown.attained
    exact ⟨zs, hLeft.cons x, hRight, hLength⟩
  · intro zs hLeft hRight
    rcases sublist_cases_of_ne hApart hLeft hRight with h | h
    · exact hDown.bound h hRight
    · exact (hNext.bound hLeft h).trans hMore

theorem Longest.cons_right (hApart : x ≠ y) (hDown : Longest xs (y :: ys) n)
    (hNext : Longest (x :: xs) ys k) (hMore : n ≤ k) : Longest (x :: xs) (y :: ys) k := by
  constructor
  · obtain ⟨zs, hLeft, hRight, hLength⟩ := hNext.attained
    exact ⟨zs, hLeft, hRight.cons y, hLength⟩
  · intro zs hLeft hRight
    rcases sublist_cases_of_ne hApart hLeft hRight with h | h
    · exact (hDown.bound h hRight).trans hMore
    · exact hNext.bound hLeft h

end Common

/-! ## The table of scripts -/

section Table

variable {β μ κ : Type} {same : β → μ → Bool} {f : β → κ} {g : μ → κ}

/-- The script keeps as many pairs as it says, and no common subsequence of the keys is longer. -/
def Optimal (f : β → κ) (g : μ → κ) (bs : List β) (ms : List μ) (script : Script β μ) : Prop :=
  script.edits.countP Edit.isKeep = script.kept ∧ Longest (bs.map f) (ms.map g) script.kept

theorem fills_optimal (hSame : ∀ b m, same b m = true ↔ f b = g m) :
    Fills same (Optimal f g) where
  empty := ⟨rfl, longest_nil_left _⟩
  onlyInsert hNext := ⟨hNext.1.trans (hNext.2.unique (longest_nil_left _)), longest_nil_left _⟩
  onlyDelete hDown := by
    refine ⟨hDown.1, ?_⟩
    rw [hDown.2.unique (longest_nil_right _)]
    exact longest_nil_right _
  keep hKeys hBoth := by
    rw [hSame] at hKeys
    constructor
    · exact (List.countP_cons_of_pos rfl).trans (congrArg (· + 1) hBoth.1)
    · rw [List.map_cons, List.map_cons, hKeys]
      exact hBoth.2.cons_self _
  delete hApart hDown hNext hMore := by
    have hKeys := (hSame _ _).not.mp (Bool.eq_false_iff.mp hApart)
    exact ⟨hDown.1, hDown.2.cons_left hKeys hNext.2 hMore⟩
  insert hApart hDown hNext hLess := by
    have hKeys := (hSame _ _).not.mp (Bool.eq_false_iff.mp hApart)
    exact ⟨hNext.1, hDown.2.cons_right hKeys hNext.2 hLess.le⟩

theorem Row.length_eq {P : List μ → Script β μ → Prop} {ms : List μ} {row : List (Script β μ)}
    (h : Row P ms row) : row.length = ms.length + 1 := by
  rw [← List.Forall₂.length_eq h, List.length_tails]

theorem Row.exists_entry {P : List μ → Script β μ → Prop} {ms : List μ}
    {row : List (Script β μ)} (h : Row P ms row) {j : Nat} (hj : j ≤ ms.length) :
    ∃ entry, row[j]? = some entry ∧ P (ms.drop j) entry := by
  induction ms generalizing j row with
  | nil =>
    obtain rfl := Nat.le_zero.mp hj
    cases h with
    | cons hHere _ => exact ⟨_, rfl, hHere⟩
  | cons m ms ih =>
    obtain ⟨here, rest, rfl, hHere, hRest⟩ := Row.cons_iff.mp h
    cases j with
    | zero => exact ⟨here, rfl, hHere⟩
    | succ j => exact ih hRest (Nat.le_of_succ_le_succ hj)

theorem Aligns.filterMap_base? {bs : List β} {ms : List μ} {es : List (Edit β μ)}
    (h : Aligns same bs ms es) : es.filterMap Edit.base? = bs := by
  induction h with
  | nil => rfl
  | keep _ _ ih => exact congrArg _ ih
  | delete _ _ ih => exact congrArg _ ih
  | insert _ _ ih => exact ih

theorem Aligns.filterMap_modified? {bs : List β} {ms : List μ} {es : List (Edit β μ)}
    (h : Aligns same bs ms es) : es.filterMap Edit.modified? = ms := by
  induction h with
  | nil => rfl
  | keep _ _ ih => exact congrArg _ ih
  | delete _ _ ih => exact ih
  | insert _ _ ih => exact congrArg _ ih

theorem Aligns.same_of_keep {bs : List β} {ms : List μ} {es : List (Edit β μ)}
    (h : Aligns same bs ms es) {b : β} {m : μ} (hKeep : .keep b m ∈ es) :
    b ∈ bs ∧ m ∈ ms ∧ same b m = true := by
  refine ⟨?_, ?_, ?_⟩
  · rw [← h.filterMap_base?]
    exact List.mem_filterMap.mpr ⟨_, hKeep, rfl⟩
  · rw [← h.filterMap_modified?]
    exact List.mem_filterMap.mpr ⟨_, hKeep, rfl⟩
  · induction h with
    | nil => cases hKeep
    | keep hSame _ ih =>
      rcases List.mem_cons.mp hKeep with hHere | hKeep
      · cases hHere
        exact hSame
      · exact ih hKeep
    | delete _ _ ih =>
      apply ih
      simpa using hKeep
    | insert _ _ ih =>
      apply ih
      simpa using hKeep

end Table

end Alignment

namespace Diff

theorem map_key_zipIdx (ms : List Statement) (j : Nat) :
    (ms.zipIdx j).map (fun m => m.1.key) = ms.map Statement.key := by
  induction ms generalizing j with
  | nil => rfl
  | cons m ms ih => exact congrArg _ (ih (j + 1))

theorem map_key_comparable (bs : List Statement) (i : Nat) :
    ((comparable bs).zipIdx i).map (fun b => b.1.1.key) = bs.map Statement.key := by
  induction bs generalizing i with
  | nil => rfl
  | cons s bs ih => exact congrArg _ (ih (i + 1))

/-- The edit script behind a comparison of two lists of statements goes through both lists index by
index, keeps only pairs with one key, and keeps as many as the longest common subsequence of the
keys has. Each entry of the table it is read from is there and says as much for its two suffixes. -/
theorem align_keeps_longest_common_subsequence (base modified : List Statement) :
    let same (b : (Statement × Inner) × Nat) (m : Indexed) : Bool := b.1.1.key = m.1.key
    let bs := (comparable base).zipIdx
    let ms := modified.zipIdx
    let steps := align same bs ms
    (∀ here : Place, here.compare (comparable base) modified =
      here.collect base.length steps [] []) ∧
    (steps.filterMap Edit.base?).map Prod.snd = List.range base.length ∧
    (steps.filterMap Edit.modified?).map Prod.snd = List.range modified.length ∧
    (∀ b i m j, .keep (b, i) (m, j) ∈ steps →
      base[i]? = some b.1 ∧ modified[j]? = some m ∧ b.1.key = m.key) ∧
    Alignment.Longest (base.map Statement.key) (modified.map Statement.key) (steps.countP Edit.isKeep) ∧
    ∀ i ≤ base.length, (Alignment.firstRow same ms (bs.drop i)).length = modified.length + 1 ∧
      ∀ j ≤ modified.length, ∃ entry, (Alignment.firstRow same ms (bs.drop i))[j]? = some entry ∧
        Alignment.Longest ((base.drop i).map Statement.key) ((modified.drop j).map Statement.key)
          entry.kept := by
  intro same bs ms steps
  have hAligns : Alignment.Aligns same bs ms steps := Alignment.aligns_align same bs ms
  have hFills : Alignment.Fills same
      (Alignment.Optimal (fun b => b.1.1.key) (fun m => m.1.key)) :=
    Alignment.fills_optimal fun b m => decide_eq_true_iff
  refine ⟨?_, ?_, ?_, ?_, ?_, ?_⟩
  · intro here
    rw [Place.compare, comparable_eq_map, List.length_map, ← comparable_eq_map]
  · rw [hAligns.filterMap_base?, List.zipIdx_map_snd]
    simp [comparable_eq_map, List.range_eq_range']
  · rw [hAligns.filterMap_modified?, List.zipIdx_map_snd]
    simp [List.range_eq_range']
  · intro b i m j hKeep
    obtain ⟨hb, hm, hSame⟩ := hAligns.same_of_keep hKeep
    refine ⟨?_, ?_, of_decide_eq_true hSame⟩
    · have hIndex := List.mk_mem_zipIdx_iff_getElem?.mp hb
      rw [comparable_eq_map, List.getElem?_map] at hIndex
      obtain ⟨s, hs, rfl⟩ := Option.map_eq_some_iff.mp hIndex
      exact hs
    · exact List.mk_mem_zipIdx_iff_getElem?.mp hm
  · have hLongest := (hFills.firstRow bs ms).head
    rw [Alignment.Optimal, map_key_comparable, map_key_zipIdx] at hLongest
    rw [show steps.countP Edit.isKeep = _ from hLongest.1]
    exact hLongest.2
  · intro i _
    have hRow := hFills.firstRow (bs.drop i) ms
    refine ⟨by rw [hRow.length_eq, List.length_zipIdx], ?_⟩
    intro j hj
    obtain ⟨entry, hEntry, _, hLongest⟩ := hRow.exists_entry (List.length_zipIdx.symm ▸ hj)
    rw [List.map_drop, List.map_drop, map_key_comparable, map_key_zipIdx, ← List.map_drop,
      ← List.map_drop] at hLongest
    exact ⟨entry, hEntry, hLongest⟩

end Diff

end Reanalysis
