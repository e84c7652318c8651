import Reanalysis.Proofs.Entries

/-!
# The order of the changes

The changes of a comparison come out in the order of the document, in both versions at once. The
open gap of an edit script holds indices from some point up to the next statement, and what comes
out behind it lies at that statement or later; so a gap may be written late without disorder.
-/

namespace Reanalysis

/-- The first change comes before the second in both versions. Only additions share a place in the
base. -/
def Change.Ahead (c d : Change) : Prop :=
  (c.path.compare d.path = .lt ∨ c.path = d.path ∧ c.kind = .added ∧ d.kind = .added) ∧
    ∀ p ∈ c.modifiedPath, ∀ q ∈ d.modifiedPath, p.compare q = .lt

theorem Change.Ahead.le {c d : Change} (h : c.Ahead d) : c.path.le d.path = true := by
  rcases h.1 with hLess | ⟨hEq, _⟩
  · exact Path.le_of_lt hLess
  · exact hEq ▸ Path.le_refl _

theorem Change.Ahead.added_of_eq {c d : Change} (h : c.Ahead d) (hPath : c.path = d.path) :
    c.kind = .added ∧ d.kind = .added := by
  rcases h.1 with hLess | ⟨_, hKinds⟩
  · rw [hPath, Path.compare_self] at hLess
    cases hLess
  · exact hKinds

theorem Change.Within.ahead {c d : Change} {p q : Path} {s t : Segment}
    (hc : c.Within (p.child s) (q.child s)) (hd : d.Within (p.child t) (q.child t))
    (h : s.compare t = .lt) : c.Ahead d := by
  constructor
  · exact .inl (Path.lt_of_children h hc.1 hd.1)
  · intro r hr u hu
    exact Path.lt_of_children h (hc.2 r hr) (hd.2 u hu)

namespace Diff

variable {here : Place} {i j lo lo' : Nat} {c d : Change}

/-- The change lies at one of the indices from `i` on in the base list, and from `j` on in the
modified one. -/
def Place.From (here : Place) (i j : Nat) (c : Change) : Prop :=
  (∃ k, i ≤ k ∧ here.base.child (.index k) <+: c.path) ∧
    ∀ q ∈ c.modifiedPath, ∃ l, j ≤ l ∧ here.modified.child (.index l) <+: q

/-- The change is one of the two lists, before the statements `i` and `j`. -/
def Place.UpTo (here : Place) (i j : Nat) (c : Change) : Prop :=
  (∃ k, c.path = here.base.child (.index k) ∧ (k < i ∨ k = i ∧ c.kind = .added)) ∧
    ∀ q ∈ c.modifiedPath, ∃ l, q = here.modified.child (.index l) ∧ l < j

theorem Place.From.mono (h : here.From i j c) (hi : lo ≤ i) (hj : lo' ≤ j) :
    here.From lo lo' c := by
  constructor
  · obtain ⟨k, hk, hPath⟩ := h.1
    exact ⟨k, hi.trans hk, hPath⟩
  · intro q hq
    obtain ⟨l, hl, hPath⟩ := h.2 q hq
    exact ⟨l, hj.trans hl, hPath⟩

theorem Place.from_of_within
    (h : c.Within (here.base.child (.index i)) (here.modified.child (.index j))) :
    here.From i j c :=
  ⟨⟨i, Nat.le_refl i, h.1⟩, fun q hq => ⟨j, Nat.le_refl j, h.2 q hq⟩⟩

theorem Place.ahead_of_within
    (hc : c.Within (here.base.child (.index i)) (here.modified.child (.index j)))
    (hd : here.From (i + 1) (j + 1) d) : c.Ahead d := by
  constructor
  · obtain ⟨k, hk, hPath⟩ := hd.1
    exact .inl (Path.lt_of_indices hk hc.1 hPath)
  · intro p hp q hq
    obtain ⟨l, hl, hPath⟩ := hd.2 q hq
    exact Path.lt_of_indices hl (hc.2 p hp) hPath

theorem Place.UpTo.ahead_of_from (hc : here.UpTo i j c) (hd : here.From (i + 1) (j + 1) d) :
    c.Ahead d := by
  constructor
  · obtain ⟨k, hPath, hk⟩ := hc.1
    obtain ⟨k', hk', hPath'⟩ := hd.1
    rw [hPath]
    exact .inl (Path.lt_of_indices (by omega) List.prefix_rfl hPath')
  · intro p hp q hq
    obtain ⟨l, rfl, hl⟩ := hc.2 p hp
    obtain ⟨l', hl', hPath'⟩ := hd.2 q hq
    exact Path.lt_of_indices (by omega) List.prefix_rfl hPath'

theorem Place.UpTo.ahead_of_inner {arm : Segment} (hc : here.UpTo i j c)
    (hd : d.Within ((here.base.child (.index i)).child arm)
      ((here.modified.child (.index j)).child arm)) : c.Ahead d := by
  constructor
  · obtain ⟨k, hPath, hk⟩ := hc.1
    rw [hPath]
    rcases hk with hk | ⟨rfl, _⟩
    · exact .inl (Path.lt_of_indices hk List.prefix_rfl (Path.prefix_of_child hd.1))
    · exact .inl (Path.lt_of_encloses hd.1)
  · intro p hp q hq
    obtain ⟨l, rfl, hl⟩ := hc.2 p hp
    exact Path.lt_of_indices hl List.prefix_rfl (Path.prefix_of_child (hd.2 q hq))

/-! ## Gaps -/

/-- Statements in the order of their indices, which lie from `lo` on and before `hi`. -/
structure Ascends (lo hi : Nat) (xs : List Indexed) : Prop where
  le : lo ≤ hi
  inside : ∀ x ∈ xs, lo ≤ x.2 ∧ x.2 < hi
  sorted : xs.Pairwise fun x y => x.2 < y.2

theorem Ascends.nil (i : Nat) : Ascends i i [] := ⟨Nat.le_refl i, by simp, .nil⟩

theorem Ascends.concat {xs : List Indexed} (h : Ascends lo i xs) (s : Statement) :
    Ascends lo (i + 1) (xs ++ [(s, i)]) := by
  have hLe := h.le
  refine ⟨by omega, ?_, ?_⟩
  · intro x hx
    rcases List.mem_append.mp hx with hx | hx
    · have := h.inside x hx
      omega
    · obtain rfl := List.mem_singleton.mp hx
      exact ⟨hLe, Nat.lt_succ_self i⟩
  · rw [List.pairwise_append]
    refine ⟨h.sorted, List.pairwise_singleton .., ?_⟩
    intro x hx y hy
    obtain rfl := List.mem_singleton.mp hy
    exact (h.inside x hx).2

theorem Ascends.tail {x : Indexed} {xs : List Indexed} (h : Ascends lo i (x :: xs)) :
    Ascends (x.2 + 1) i xs := by
  have hSorted := List.pairwise_cons.mp h.sorted
  refine ⟨(h.inside x List.mem_cons_self).2, ?_, hSorted.2⟩
  intro y hy
  exact ⟨hSorted.1 y hy, (h.inside y (List.mem_cons_of_mem _ hy)).2⟩

theorem Place.upTo_gap {deleted inserted : List Indexed} (hDeleted : Ascends lo i deleted)
    (hInserted : Ascends lo' j inserted) :
    ∀ c ∈ here.gap i deleted inserted, here.From lo lo' c ∧ here.UpTo i j c := by
  intro c hc
  fun_induction here.gap i deleted inserted generalizing lo lo' with
  | case1 inserted =>
    obtain ⟨m, hm, rfl⟩ := List.mem_map.mp hc
    obtain ⟨hFrom, hTo⟩ := hInserted.inside m hm
    constructor
    · exact ⟨⟨i, hDeleted.le, List.prefix_rfl⟩,
        by simpa [Place.added] using ⟨_, hFrom, List.prefix_rfl⟩⟩
    · exact ⟨⟨i, rfl, .inr ⟨rfl, rfl⟩⟩, by simpa [Place.added] using ⟨_, rfl, hTo⟩⟩
  | case2 deleted =>
    obtain ⟨b, hb, rfl⟩ := List.mem_map.mp hc
    obtain ⟨hFrom, hTo⟩ := hDeleted.inside b hb
    constructor
    · exact ⟨⟨b.2, hFrom, List.prefix_rfl⟩, by simp [Place.removed]⟩
    · exact ⟨⟨b.2, rfl, .inl hTo⟩, by simp [Place.removed]⟩
  | case3 b deleted m inserted ih =>
    obtain ⟨hFrom, hTo⟩ := hDeleted.inside b List.mem_cons_self
    obtain ⟨hFrom', hTo'⟩ := hInserted.inside m List.mem_cons_self
    rcases List.mem_cons.mp hc with rfl | hc
    · constructor
      · exact ⟨⟨b.2, hFrom, List.prefix_rfl⟩,
          by simpa [Place.altered] using ⟨_, hFrom', List.prefix_rfl⟩⟩
      · exact ⟨⟨b.2, rfl, .inl hTo⟩, by simpa [Place.altered] using ⟨_, rfl, hTo'⟩⟩
    · obtain ⟨hc, hUpTo⟩ := ih hDeleted.tail hInserted.tail hc
      exact ⟨hc.mono (by omega) (by omega), hUpTo⟩

theorem Place.ordered_gap {deleted inserted : List Indexed} (hDeleted : Ascends lo i deleted)
    (hInserted : Ascends lo' j inserted) :
    (here.gap i deleted inserted).Pairwise Change.Ahead := by
  fun_induction here.gap i deleted inserted generalizing lo lo' with
  | case1 inserted =>
    rw [List.pairwise_map]
    apply hInserted.sorted.imp
    intro x y hxy
    refine ⟨.inr ⟨rfl, rfl, rfl⟩, ?_⟩
    simpa [Place.added] using Path.lt_of_indices hxy List.prefix_rfl List.prefix_rfl
  | case2 deleted =>
    rw [List.pairwise_map]
    apply hDeleted.sorted.imp
    intro x y hxy
    exact ⟨.inl (Path.lt_of_indices hxy List.prefix_rfl List.prefix_rfl), by simp [Place.removed]⟩
  | case3 b deleted m inserted ih =>
    apply List.Pairwise.cons
    · intro d hd
      obtain ⟨hFrom, _⟩ := Place.upTo_gap hDeleted.tail hInserted.tail d hd
      apply Place.ahead_of_within _ hFrom
      exact ⟨List.prefix_rfl, by simp [Place.altered]⟩
    · exact ih hDeleted.tail hInserted.tail

/-! ## Whole comparisons -/

/-- What a script still has to report is in order, and lies behind what the open gap starts with. -/
theorem Aligned.ordered {size : Nat} {bs ms : List Statement} {es : Edits}
    (h : Aligned i j bs ms es) (hSize : size = i + bs.length)
    (hInner : ∀ b ∈ bs, ∀ m p q, (b.changes m p q).Pairwise Change.Ahead)
    {deleted inserted : List Indexed} (hDeleted : Ascends lo i deleted)
    (hInserted : Ascends lo' j inserted) :
    (here.collect size es deleted inserted).Pairwise Change.Ahead ∧
      ∀ c ∈ here.collect size es deleted inserted, here.From lo lo' c := by
  induction h generalizing lo lo' deleted inserted with
  | nil =>
    obtain rfl : size = _ := hSize
    exact ⟨Place.ordered_gap hDeleted hInserted,
      fun c hc => (Place.upTo_gap hDeleted hInserted c hc).1⟩
  | @keep i j b m bs ms es _ _ ih =>
    obtain ⟨hRest, hFrom⟩ := ih (by simp only [hSize, List.length_cons]; omega)
      (fun b hb => hInner b (List.mem_cons_of_mem _ hb)) (.nil (i + 1)) (.nil (j + 1))
    have hGap : ∀ c ∈ here.gap i deleted inserted, here.From lo lo' c ∧ here.UpTo i j c :=
      Place.upTo_gap hDeleted hInserted
    have hWithin : ∀ c ∈ b.changes m (here.base.child (.index i)) (here.modified.child (.index j)),
        c.Within (here.base.child (.index i)) (here.modified.child (.index j)) :=
      fun c hc => within_statement hc
    simp only [Place.collect, List.pairwise_append, List.mem_append]
    refine ⟨⟨⟨?_, ?_, ?_⟩, hRest, ?_⟩, ?_⟩
    · exact Place.ordered_gap hDeleted hInserted
    · exact hInner b List.mem_cons_self m _ _
    · intro c hc d hd
      obtain ⟨arm, _, hd⟩ := within_arm _ _ _ _ d hd
      exact (hGap c hc).2.ahead_of_inner hd
    · rintro c (hc | hc) d hd
      · exact (hGap c hc).2.ahead_of_from (hFrom d hd)
      · exact Place.ahead_of_within (hWithin c hc) (hFrom d hd)
    · have hLe := hDeleted.le
      have hLe' := hInserted.le
      rintro c ((hc | hc) | hc)
      · exact (hGap c hc).1
      · exact (Place.from_of_within (hWithin c hc)).mono hLe hLe'
      · exact (hFrom c hc).mono (by omega) (by omega)
  | @delete i j b bs ms es _ _ ih =>
    exact ih (by simp only [hSize, List.length_cons]; omega)
      (fun b hb => hInner b (List.mem_cons_of_mem _ hb)) (hDeleted.concat b) hInserted
  | @insert i j m bs ms es _ _ ih => exact ih hSize hInner hDeleted (hInserted.concat m)

theorem Place.ordered_of_inner {bs ms : List Statement}
    (hInner : ∀ b ∈ bs, ∀ m p q, (b.changes m p q).Pairwise Change.Ahead) :
    (here.changes bs ms).Pairwise Change.Ahead := by
  obtain ⟨es, hAligned, hChanges⟩ := here.changes_aligned bs ms
  rw [hChanges]
  exact (hAligned.ordered (Nat.zero_add _).symm hInner (.nil 0) (.nil 0)).1

theorem ordered_inner (b m : Statement) (p q : Path) :
    (b.changes m p q).Pairwise Change.Ahead := by
  induction b using Statement.induct_arms generalizing m p q with
  | simple line text => exact .nil
  | conditional line text test thenArm elseArm ihThen ihElse =>
    cases m with
    | simple line' text' => exact .nil
    | conditional line' text' test' thenArm' elseArm' =>
      rw [changes_conditional, List.pairwise_append]
      refine ⟨Place.ordered_of_inner ihThen, Place.ordered_of_inner ihElse, ?_⟩
      intro c hc d hd
      obtain ⟨_, _, hc⟩ := Place.within_changes hc
      obtain ⟨_, _, hd⟩ := Place.within_changes hd
      exact hc.parent.ahead hd.parent rfl

theorem ordered_changes (base modified : Tree) :
    (changes base modified).Pairwise Change.Ahead :=
  Place.ordered_of_inner fun b _ => ordered_inner b

/-- Every change names statements of the two versions with their lines and texts, the place of an
addition, and the innermost conditional around it. The changes come in the order of the document:
paths of the base never decrease and are shared by additions only, and paths of the modified version
increase. -/
theorem changes_wellFormed_and_ordered (base modified : Tree) :
    (∀ c ∈ changes base modified, c.WellFormed base modified) ∧
    (changes base modified).Pairwise (fun c d => c.path.le d.path = true ∧
      (c.path = d.path → c.kind = .added ∧ d.kind = .added)) ∧
    ((changes base modified).filterMap Change.modifiedPath).Pairwise
      (fun p q => p.compare q = .lt) := by
  have hOrdered := ordered_changes base modified
  refine ⟨wellFormed_changes base modified, ?_, ?_⟩
  · apply hOrdered.imp
    intro c d hAhead
    exact ⟨hAhead.le, hAhead.added_of_eq⟩
  · rw [List.pairwise_filterMap]
    apply hOrdered.imp
    intro c d hAhead p hp q hq
    exact hAhead.2 p hp q hq

end Diff

end Reanalysis
