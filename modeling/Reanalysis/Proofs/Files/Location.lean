import Mathlib.Data.List.Basic
import Reanalysis.Files.Location
import Reanalysis.Proofs.Text
import Reanalysis.Store.Action

/-!
# Locations put together from names

A plain name is one that means itself: it is not blank, not a point or two, and has no slash. A plain
name behind a location is its last step, and the directory of the result is that location again.
-/

namespace Reanalysis

theorem Text.split_append_mark (mark : Char) (as bs : List Char) :
    split mark (as ++ mark :: bs) = split mark as ++ split mark bs := by
  induction as with
  | nil =>
    rw [List.nil_append, split, split]
    cases hParts : split mark bs with
    | nil => exact absurd hParts (split_ne_nil mark bs)
    | cons part parts => simp
  | cons a as ih =>
    rw [List.cons_append, split, split, ih]
    cases hParts : split mark as with
    | nil => exact absurd hParts (split_ne_nil mark as)
    | cons part parts => by_cases ha : a = mark <;> simp [ha]

namespace Files

structure PlainName (name : String) : Prop where
  ne_blank : name ≠ ""
  ne_point : name ≠ "."
  ne_points : name ≠ ".."
  no_slash : '/' ∉ name.toList

namespace PlainName

variable {name : String}

theorem toList_ne_nil (h : PlainName name) : name.toList ≠ [] := by
  intro hNil
  exact h.ne_blank (String.toList_inj.mp (by rw [hNil]; rfl))

theorem head?_ne_slash (h : PlainName name) : name.toList.head? ≠ some '/' := by
  intro hHead
  exact h.no_slash (List.mem_of_mem_head? hHead)

theorem reverse_cases (h : PlainName name) (rest : List Char) :
    ∃ c cs, name.toList.reverse ++ rest = c :: cs ∧ c ≠ '/' ∧ ∀ ds, c = '.' → cs ≠ '/' :: ds := by
  cases hReverse : name.toList.reverse with
  | nil => exact absurd (List.reverse_eq_nil_iff.mp hReverse) h.toList_ne_nil
  | cons c cs =>
    have hMem : ∀ d ∈ c :: cs, d ≠ '/' := by
      intro d hd hSlash
      exact h.no_slash (List.mem_reverse.mp (hReverse ▸ hSlash ▸ hd))
    refine ⟨c, cs ++ rest, rfl, hMem c List.mem_cons_self, fun ds hPoint hSlash => ?_⟩
    cases cs with
    | nil =>
      apply h.ne_point
      rw [← String.ofList_toList (s := name), ← List.reverse_reverse name.toList, hReverse, hPoint]
      rfl
    | cons d cs =>
      rw [List.cons_append, List.cons.injEq] at hSlash
      exact hMem d (List.mem_cons_of_mem _ List.mem_cons_self) hSlash.1

end PlainName

theorem toList_join (dir : Location) {name : Location} (h : PlainName name) :
    (join dir name).toList = name.toList ∧ dir.toList = [] ∨
    ∃ front, (join dir name).toList = front ++ '/' :: name.toList ∧
      (dir.toList = front ++ ['/'] ∨ dir.toList = front ∧ front ≠ []) := by
  rw [join, if_neg h.head?_ne_slash]
  cases hLast : dir.toList.getLast? with
  | none => exact .inl ⟨rfl, List.getLast?_eq_none_iff.mp hLast⟩
  | some c =>
    obtain ⟨front, hFront⟩ := List.getLast?_eq_some_iff.mp hLast
    refine .inr ?_
    by_cases hc : c = '/'
    · subst hc
      exact ⟨front, by simp [hFront], .inl hFront⟩
    · refine ⟨dir.toList, by simp [hc], .inr ⟨rfl, ?_⟩⟩
      rw [hFront]
      simp

theorem join_ne_blank {dir name : Location} (h : PlainName name) : join dir name ≠ "" := by
  intro hBlank
  have hNil : (join dir name).toList = [] := by rw [hBlank]; rfl
  rcases toList_join dir h with ⟨hChars, -⟩ | ⟨front, hChars, -⟩
  · exact h.toList_ne_nil (hChars.symm.trans hNil)
  · rw [hChars] at hNil
    simp at hNil

theorem steps_join {dir name : Location} (h : PlainName name) :
    steps (join dir name) = steps dir ++ [name] := by
  have hName : Text.split '/' name.toList = [name.toList] := Text.split_of_not_mem h.no_slash
  have hKept : ([name].filter fun s => s ≠ "" && s ≠ ".") = [name] := by
    simp [h.ne_blank, h.ne_point]
  rcases toList_join dir h with ⟨hChars, hDir⟩ | ⟨front, hChars, hDir⟩
  · rw [steps, steps, hChars, hDir, hName, if_neg h.head?_ne_slash]
    simpa [Text.split] using hKept
  · have hSplit : (((Text.split '/' dir.toList).map String.ofList).filter fun s =>
        s ≠ "" && s ≠ ".") =
        ((Text.split '/' front).map String.ofList).filter fun s => s ≠ "" && s ≠ "." := by
      rcases hDir with hDir | ⟨hDir, -⟩
      · rw [hDir, Text.split_append_mark]
        simp [Text.split]
      · rw [hDir]
    have hHead : (front ++ '/' :: name.toList).head? = dir.toList.head? := by
      rcases hDir with hDir | ⟨hDir, hNe⟩
      · rw [hDir]
        cases front <;> rfl
      · rw [hDir, List.head?_append_of_ne_nil _ hNe]
    have hNames : ((Text.split '/' (front ++ '/' :: name.toList)).map String.ofList).filter
        (fun s => s ≠ "" && s ≠ ".") =
        (((Text.split '/' front).map String.ofList).filter fun s => s ≠ "" && s ≠ ".") ++ [name] := by
      rw [Text.split_append_mark, hName, List.map_append, List.filter_append, List.map_singleton,
        String.ofList_toList, hKept]
    rw [steps, steps, hChars, hHead, hNames, hSplit]
    split <;> simp

theorem exists_reverse_join (dir : Location) {name : Location} (h : PlainName name) :
    ∃ rest, (join dir name).toList.reverse = name.toList.reverse ++ rest := by
  rcases toList_join dir h with ⟨hChars, -⟩ | ⟨front, hChars, -⟩
  · exact ⟨[], by rw [hChars, List.append_nil]⟩
  · exact ⟨'/' :: front.reverse, by simp [hChars]⟩

theorem asksForDirectory_join {dir name : Location} (h : PlainName name) :
    asksForDirectory (join dir name) = false := by
  obtain ⟨rest, hRest⟩ := exists_reverse_join dir h
  obtain ⟨c, cs, hCons, hSlash, hPoint⟩ := h.reverse_cases rest
  rw [asksForDirectory, hRest, hCons]
  split
  · rename_i hEq
    exact absurd (List.cons.inj hEq).1 hSlash
  · rename_i hEq
    obtain ⟨rfl, rfl⟩ := List.cons.inj hEq
    exact absurd rfl (hPoint _ rfl)
  · rfl

theorem dropTrailing_reverse {name : String} (h : PlainName name) (rest : List Char) :
    dropTrailing (name.toList.reverse ++ rest) = name.toList.reverse ++ rest := by
  obtain ⟨c, cs, hCons, hSlash, hPoint⟩ := h.reverse_cases rest
  rw [hCons, dropTrailing]
  · intro ds hEq
    exact hSlash (List.cons.inj hEq).1
  · intro ds hEq
    obtain ⟨hHead, hTail⟩ := List.cons.inj hEq
    exact hPoint ds hHead hTail

theorem directoryOf_join_of_end {dir name : Location} (hName : PlainName name) (hBlank : dir ≠ "")
    (hSlash : ∀ front, dir.toList ≠ front ++ ['/'])
    (hDrop : dropTrailing dir.toList.reverse = dir.toList.reverse) :
    directoryOf (join dir name) = dir := by
  have hNe : dir.toList ≠ [] := fun hNil => hBlank (String.toList_inj.mp (by rw [hNil]; rfl))
  have hChars : (join dir name).toList = dir.toList ++ '/' :: name.toList := by
    rcases toList_join dir hName with ⟨-, hNil⟩ | ⟨front, hChars, hEnd | ⟨hEnd, -⟩⟩
    · exact absurd hNil hNe
    · exact absurd hEnd (hSlash front)
    · rw [hChars, hEnd]
  have hWhile : ((join dir name).toList.reverse).dropWhile (· ≠ '/') =
      '/' :: dir.toList.reverse := by
    have hAll : ∀ c ∈ name.toList.reverse, (decide (c ≠ '/')) = true := by
      intro c hc
      exact decide_eq_true fun hSlash => hName.no_slash (List.mem_reverse.mp (hSlash ▸ hc))
    rw [hChars, List.reverse_append, List.reverse_cons, List.append_assoc,
      List.dropWhile_append_of_pos hAll]
    simp
  have hParent : parent? (join dir name) = some dir := by
    have hTop : dropTrailing (join dir name).toList.reverse = (join dir name).toList.reverse := by
      rw [hChars, List.reverse_append, List.reverse_cons, List.append_assoc,
        dropTrailing_reverse hName]
    rw [parent?, hTop]
    split
    · rename_i hNil
      exact absurd (String.toList_inj.mp (List.reverse_eq_nil_iff.mp hNil)) (join_ne_blank hName)
    · rw [hWhile, dropTrailing, hDrop]
      split
      · rename_i hNil
        exact absurd (List.reverse_eq_nil_iff.mp hNil) hNe
      · rw [List.reverse_reverse, String.ofList_toList]
  rw [directoryOf, hParent]
  simp [hBlank]

theorem directoryOf_join {dir inner name : Location} (hInner : PlainName inner)
    (hName : PlainName name) : directoryOf (join (join dir inner) name) = join dir inner := by
  obtain ⟨rest, hRest⟩ := exists_reverse_join dir hInner
  apply directoryOf_join_of_end hName (join_ne_blank hInner)
  · intro front hEnd
    obtain ⟨c, cs, hCons, hSlash, -⟩ := hInner.reverse_cases rest
    rw [← hRest, hEnd, List.reverse_append] at hCons
    exact hSlash (List.cons.inj hCons).1.symm
  · rw [hRest, dropTrailing_reverse hInner]

/-! ## The location that a name is in -/

/-- The names in a location, the root apart. -/
def namesIn (cs : List Char) : List String :=
  ((Text.split '/' cs).map String.ofList).filter fun s => s ≠ "" && s ≠ "."

theorem steps_eq_namesIn (p : Location) :
    steps p = if p.toList.head? = some '/' then "/" :: namesIn p.toList else namesIn p.toList := rfl

theorem namesIn_trailing {cs tail : List Char} (hTail : tail = [] ∨ tail = ['.']) :
    namesIn (cs ++ '/' :: tail) = namesIn cs := by
  have hNone : namesIn tail = [] := by
    rcases hTail with rfl | rfl <;> decide
  rw [namesIn, Text.split_append_mark, List.map_append, List.filter_append]
  change namesIn cs ++ namesIn tail = namesIn cs
  rw [hNone, List.append_nil]

theorem namesIn_dropTrailing (cs : List Char) :
    namesIn (dropTrailing cs).reverse = namesIn cs.reverse := by
  fun_induction dropTrailing cs with
  | case1 rest ih =>
    rw [ih, List.reverse_cons]
    exact (namesIn_trailing (.inl rfl)).symm
  | case2 rest ih =>
    rw [ih, List.reverse_cons, List.reverse_cons, List.append_assoc]
    exact (namesIn_trailing (.inr rfl)).symm
  | case3 => rfl

theorem dropTrailing_suffix (cs : List Char) : dropTrailing cs <:+ cs := by
  fun_induction dropTrailing cs with
  | case1 rest ih => exact ih.trans (List.suffix_cons _ _)
  | case2 rest ih => exact ih.trans ((List.suffix_cons _ _).trans (List.suffix_cons _ _))
  | case3 => exact List.suffix_rfl

theorem exists_parent?_join (dir : Location) {name : Location} (hName : PlainName name) :
    ∃ parent, parent? (join dir name) = some parent ∧ steps parent = steps dir := by
  obtain ⟨rest, hRest⟩ := exists_reverse_join dir hName
  have hAll : ∀ c ∈ name.toList.reverse, (decide (c ≠ '/')) = true := by
    intro c hc
    exact decide_eq_true fun hSlash => hName.no_slash (List.mem_reverse.mp (hSlash ▸ hc))
  rw [parent?, hRest, dropTrailing_reverse hName]
  split
  · rename_i hNil
    exact absurd (List.append_eq_nil_iff.mp hNil).1 (by simpa using hName.toList_ne_nil)
  · rw [List.dropWhile_append_of_pos hAll]
    rcases toList_join dir hName with ⟨hChars, hDir⟩ | ⟨front, hChars, hDir⟩
    · obtain rfl : rest = [] := by
        rw [hChars] at hRest
        simpa using hRest
      rw [List.dropWhile_nil, dropTrailing.eq_3 _ (by simp) (by simp), hChars,
        if_neg hName.head?_ne_slash]
      obtain rfl : dir = "" := String.toList_inj.mp hDir
      exact ⟨"", rfl, rfl⟩
    · obtain rfl : rest = '/' :: front.reverse := by
        rw [hChars] at hRest
        simpa using hRest.symm
      -- The slash before the name and what else is superfluous at the end goes.
      have hNames : namesIn dir.toList = namesIn front := by
        rcases hDir with hDir | ⟨hDir, -⟩
        · rw [hDir]
          exact namesIn_trailing (.inl rfl)
        · rw [hDir]
      have hHead : (front ++ '/' :: name.toList).head? = dir.toList.head? := by
        rcases hDir with hDir | ⟨hDir, hNe⟩
        · rw [hDir]
          cases front <;> rfl
        · rw [hDir, List.head?_append_of_ne_nil _ hNe]
      have hKept := namesIn_dropTrailing front.reverse
      rw [List.reverse_reverse] at hKept
      rw [List.dropWhile_cons_of_neg (by simp), dropTrailing, hChars, hHead, steps_eq_namesIn, hNames]
      split
      · rename_i hNil
        rw [hNil] at hKept
        rw [← hKept]
        refine ⟨_, rfl, ?_⟩
        split <;> rfl
      · rename_i hSome
        refine ⟨_, rfl, ?_⟩
        obtain ⟨gone, hGone⟩ := dropTrailing_suffix front.reverse
        have hFront : front = (dropTrailing front.reverse).reverse ++ gone.reverse := by
          rw [← List.reverse_append, hGone, List.reverse_reverse]
        have hStart : (dropTrailing front.reverse).reverse.head? = dir.toList.head? := by
          rw [← hHead, hFront, List.append_assoc, List.head?_append_of_ne_nil]
          · rw [← hFront]
          · simpa using hSome
        rw [steps_eq_namesIn, String.toList_ofList, hKept, hStart]

theorem prefix_of_parent? {p parent : Location} (h : parent? p = some parent) :
    parent.toList <+: p.toList := by
  have hSuffix := dropTrailing_suffix p.toList.reverse
  rw [parent?] at h
  split at h
  · cases h
  · split at h
    · split at h
      · rename_i hHead
        cases h
        obtain ⟨rest, hRest⟩ := List.head?_eq_some_iff.mp hHead
        exact ⟨rest, hRest.symm⟩
      · cases h
        exact List.nil_prefix
    · cases h
      rw [String.toList_ofList, ← List.reverse_suffix, List.reverse_reverse]
      exact (dropTrailing_suffix _).trans ((List.dropWhile_suffix _).trans hSuffix)

/-! ## Parts of joined locations -/

theorem toList_prefix_join (dir : Location) {name : Location} (h : PlainName name) :
    dir.toList <+: (join dir name).toList := by
  rcases toList_join dir h with ⟨-, hDir⟩ | ⟨front, hChars, hDir | ⟨hDir, -⟩⟩
  · rw [hDir]
    exact List.nil_prefix
  · rw [hChars, hDir]
    exact ⟨name.toList, by simp⟩
  · rw [hChars, hDir]
    exact List.prefix_append _ _

theorem toList_suffix_join (dir name : Location) : name.toList <:+ (join dir name).toList := by
  rw [join]
  split
  · exact List.suffix_rfl
  · split
    · exact List.suffix_rfl
    · split
      · rw [String.toList_append]
        exact List.suffix_append _ _
      · rw [String.toList_append]
        exact List.suffix_append _ _

end Files

end Reanalysis
