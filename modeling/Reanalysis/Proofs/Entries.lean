import Reanalysis.Proofs.Comparison
import Reanalysis.Proofs.PathOrder

/-!
# Well-formed changes

A change of a comparison is made in the list it compares or inside a matched pair of that list
(`Place.direct_or_inner`). The first kind names statements and lines of the two lists
(`Place.Lists.wellFormed`), and the second is one of a comparison of two arms.
-/

namespace Reanalysis

/-! ## The lists of a program -/

theorem Statement.at?_append {p : Path} {s x : Statement} (h : Statement.at? p s = some x)
    (r : Path) : Statement.at? (p ++ r) s = Statement.at? r x := by
  induction hLength : p.length using Nat.strongRecOn generalizing p s with
  | ind n ih =>
    cases p with
    | nil =>
      cases h
      rfl
    | cons a p =>
      rw [Statement.at?_cons] at h
      obtain ⟨i, rest, rfl⟩ := Tree.exists_index_of_at? h
      obtain ⟨y, hy, hx⟩ := Option.bind_eq_some_iff.mp h
      rw [List.cons_append, List.cons_append, Statement.at?, hy]
      exact ih rest.length (by simp only [List.length_cons] at hLength; omega) hx rfl

theorem Tree.at?_append {t : Tree} {p : Path} {x : Statement} (h : t.at? p = some x) (r : Path) :
    t.at? (p ++ r) = Statement.at? r x := by
  obtain ⟨i, rest, rfl⟩ := Tree.exists_index_of_at? h
  obtain ⟨s, hs, hx⟩ := Option.bind_eq_some_iff.mp h
  rw [List.cons_append, Tree.at?, hs]
  exact Statement.at?_append hx r

/-- The list of statements at a path that leads to a list. A missing alternative is an empty list. -/
inductive Tree.ListAt (t : Tree) : Path → List Statement → Prop
  | top : ListAt t [] t
  | thenArm {p : Path} {line : Nat} {text test : String} {thenArm : List Statement}
      {elseArm : Option (List Statement)} :
      t.at? p = some (.conditional line text test thenArm elseArm) →
      ListAt t (p.child .thenArm) thenArm
  | elseArm {p : Path} {line : Nat} {text test : String} {thenArm : List Statement}
      {elseArm : Option (List Statement)} :
      t.at? p = some (.conditional line text test thenArm elseArm) →
      ListAt t (p.child .elseArm) (elseArm.getD [])

theorem Tree.at?_index (t : Tree) (k : Nat) : t.at? [.index k] = t[k]? := by
  rw [Tree.at?]
  cases t[k]? <;> rfl

theorem Tree.ListAt.at? {t : Tree} {p : Path} {list : List Statement} (h : t.ListAt p list)
    (k : Nat) : t.at? (p.child (.index k)) = list[k]? := by
  cases h with
  | top => exact t.at?_index k
  | thenArm hAt =>
    rw [Path.child, Path.child, List.append_assoc, Tree.at?_append hAt]
    exact (Statement.at?_cons ..).trans (Tree.at?_index _ k)
  | elseArm hAt =>
    rw [Path.child, Path.child, List.append_assoc, Tree.at?_append hAt]
    exact (Statement.at?_cons ..).trans (Tree.at?_index _ k)

/-! ## Changes of a list and changes inside its statements -/

namespace Diff

/-- `rest` is what is left of `list` from index `i` on. -/
def RestAt (list : List Statement) (i : Nat) (rest : List Statement) : Prop :=
  ∃ passed, list = passed ++ rest ∧ passed.length = i

theorem RestAt.whole (list : List Statement) : RestAt list 0 list := ⟨[], rfl, rfl⟩

theorem RestAt.length {list : List Statement} {i : Nat} {rest : List Statement}
    (h : RestAt list i rest) : list.length = i + rest.length := by
  obtain ⟨passed, rfl, rfl⟩ := h
  exact List.length_append

theorem RestAt.head {list : List Statement} {i : Nat} {s : Statement} {rest : List Statement}
    (h : RestAt list i (s :: rest)) : list[i]? = some s := by
  obtain ⟨passed, rfl, rfl⟩ := h
  simp

theorem RestAt.tail {list : List Statement} {i : Nat} {s : Statement} {rest : List Statement}
    (h : RestAt list i (s :: rest)) : RestAt list (i + 1) rest := by
  obtain ⟨passed, rfl, rfl⟩ := h
  exact ⟨passed ++ [s], by simp, by simp⟩

def Drawn (list : List Statement) (xs : List Indexed) : Prop := ∀ x ∈ xs, list[x.2]? = some x.1

theorem Drawn.concat {list : List Statement} {xs : List Indexed} (h : Drawn list xs) {s : Statement}
    {i : Nat} (hs : list[i]? = some s) : Drawn list (xs ++ [(s, i)]) := by
  intro x hx
  rcases List.mem_append.mp hx with hx | hx
  · exact h x hx
  · obtain rfl := List.mem_singleton.mp hx
    exact hs

/-- A change of the lists `bs` and `ms` themselves. -/
inductive Place.Direct (here : Place) (bs ms : List Statement) : Change → Prop
  | altered {b m : Statement} {k l : Nat} : bs[k]? = some b → ms[l]? = some m →
      Direct here bs ms (here.altered (b, k) (m, l))
  | removed {b : Statement} {k : Nat} : bs[k]? = some b → Direct here bs ms (here.removed (b, k))
  | added {m : Statement} {i l : Nat} : i ≤ bs.length → ms[l]? = some m →
      Direct here bs ms (here.added i (m, l))

theorem Place.direct_gap {here : Place} {bs ms : List Statement} {index : Nat}
    {deleted inserted : List Indexed} (hDeleted : Drawn bs deleted) (hInserted : Drawn ms inserted)
    (hIndex : index ≤ bs.length) :
    ∀ c ∈ here.gap index deleted inserted, here.Direct bs ms c := by
  intro c hc
  fun_induction here.gap index deleted inserted with
  | case1 inserted =>
    obtain ⟨m, hm, rfl⟩ := List.mem_map.mp hc
    exact .added hIndex (hInserted m hm)
  | case2 deleted =>
    obtain ⟨b, hb, rfl⟩ := List.mem_map.mp hc
    exact .removed (hDeleted b hb)
  | case3 b deleted m inserted ih =>
    rcases List.mem_cons.mp hc with rfl | hc
    · exact .altered (hDeleted b List.mem_cons_self) (hInserted m List.mem_cons_self)
    · apply ih _ _ hc
      · exact fun x hx => hDeleted x (List.mem_cons_of_mem _ hx)
      · exact fun x hx => hInserted x (List.mem_cons_of_mem _ hx)

theorem Aligned.direct_or_inner {here : Place} {base modified : List Statement} {i j : Nat}
    {bs ms : List Statement} {es : Edits} (h : Aligned i j bs ms es) (hBase : RestAt base i bs)
    (hModified : RestAt modified j ms) {deleted inserted : List Indexed}
    (hDeleted : Drawn base deleted) (hInserted : Drawn modified inserted) :
    ∀ c ∈ here.collect base.length es deleted inserted, here.Direct base modified c ∨
      ∃ (b m : Statement) (k l : Nat), base[k]? = some b ∧ modified[l]? = some m ∧
        c ∈ b.changes m (here.base.child (.index k)) (here.modified.child (.index l)) := by
  have hIndex := hBase.length
  induction h generalizing deleted inserted with
  | nil =>
    intro c hc
    exact .inl (Place.direct_gap hDeleted hInserted (Nat.le_refl _) c hc)
  | @keep i j b m bs ms es _ _ ih =>
    intro c hc
    simp only [Place.collect, List.mem_append] at hc
    rcases hc with (hc | hc) | hc
    · exact .inl (Place.direct_gap hDeleted hInserted (by omega) c hc)
    · exact .inr ⟨b, m, i, j, hBase.head, hModified.head, hc⟩
    · exact ih hBase.tail hModified.tail (by simp [Drawn]) (by simp [Drawn]) hBase.tail.length c hc
  | delete _ _ ih =>
    exact ih hBase.tail hModified (hDeleted.concat hBase.head) hInserted hBase.tail.length
  | insert _ _ ih =>
    exact ih hBase hModified.tail hDeleted (hInserted.concat hModified.head) hIndex

theorem Place.direct_or_inner {here : Place} {bs ms : List Statement} {c : Change}
    (hc : c ∈ here.changes bs ms) : here.Direct bs ms c ∨
      ∃ (b m : Statement) (k l : Nat), bs[k]? = some b ∧ ms[l]? = some m ∧
        c ∈ b.changes m (here.base.child (.index k)) (here.modified.child (.index l)) := by
  obtain ⟨es, hAligned, hChanges⟩ := here.changes_aligned bs ms
  rw [hChanges] at hc
  exact hAligned.direct_or_inner (.whole bs) (.whole ms) (by simp [Drawn]) (by simp [Drawn]) c hc

end Diff

/-! ## Well-formed changes -/

/-- The change names what it says of the two versions, and the conditional it lies in. -/
structure Change.WellFormed (base modified : Tree) (c : Change) : Prop where
  inBase : c.kind = .altered ∨ c.kind = .removed → ∃ s, base.at? c.path = some s ∧
    c.baseLine = some s.line ∧ c.baseText = some s.text
  notInBase : c.kind = .added → c.baseLine = none ∧ c.baseText = none
  inModified : c.kind = .altered ∨ c.kind = .added → ∃ q s, c.modifiedPath = some q ∧
    modified.at? q = some s ∧ c.modifiedLine = some s.line ∧ c.modifiedText = some s.text
  notInModified : c.kind = .removed →
    c.modifiedPath = none ∧ c.modifiedLine = none ∧ c.modifiedText = none
  insertion : c.kind = .added → ∃ p i list, c.path = p.child (.index i) ∧ base.ListAt p list ∧
    i ≤ list.length
  unanchored : c.anchor = none ↔ c.path.length = 1
  anchored : ∀ site ∈ c.anchor, site.path = c.path.dropLast.dropLast ∧
    ∃ text thenArm elseArm, base.at? site.path =
      some (.conditional site.line text site.test thenArm elseArm)

namespace Diff

/-- The place of two lists of the two versions, with the conditional they are arms of in the base. -/
structure Place.Lists (base modified : Tree) (here : Place) (bs ms : List Statement) : Prop where
  ofBase : base.ListAt here.base bs
  ofModified : modified.ListAt here.modified ms
  unanchored : here.anchor = none ↔ here.base = []
  anchored : ∀ site ∈ here.anchor, ∃ arm text thenArm elseArm, here.base = site.path.child arm ∧
    base.at? site.path = some (.conditional site.line text site.test thenArm elseArm)

theorem Place.Lists.top (base modified : Tree) :
    Place.Lists base modified ⟨[], [], none⟩ base modified where
  ofBase := .top
  ofModified := .top
  unanchored := by simp
  anchored := by simp

theorem Place.Lists.arms {base modified : Tree} {p q : Path} {line line' : Nat}
    {text text' test test' : String} {thenArm thenArm' : List Statement}
    {elseArm elseArm' : Option (List Statement)}
    (hBase : base.at? p = some (.conditional line text test thenArm elseArm))
    (hModified : modified.at? q = some (.conditional line' text' test' thenArm' elseArm')) :
    (armPlace p q test line .thenArm).Lists base modified thenArm thenArm' ∧
      (armPlace p q test line .elseArm).Lists base modified (elseArm.getD [])
        (elseArm'.getD []) := by
  have hAnchored (arm : Segment) : ∀ site ∈ (armPlace p q test line arm).anchor,
      ∃ arm' text thenArm elseArm, (armPlace p q test line arm).base = site.path.child arm' ∧
        base.at? site.path = some (.conditional site.line text site.test thenArm elseArm) := by
    intro site hSite
    cases hSite
    exact ⟨arm, text, thenArm, elseArm, rfl, hBase⟩
  constructor
  · exact ⟨.thenArm hBase, .thenArm hModified, by simp [armPlace, Path.child], hAnchored _⟩
  · exact ⟨.elseArm hBase, .elseArm hModified, by simp [armPlace, Path.child], hAnchored _⟩

theorem Place.Lists.wellFormed {base modified : Tree} {here : Place} {bs ms : List Statement}
    (h : here.Lists base modified bs ms) {c : Change} (hc : here.Direct bs ms c) :
    c.WellFormed base modified := by
  -- All three kinds of change have the anchor of the list and a path one index below it.
  have hUnanchored (k : Nat) : here.anchor = none ↔ (here.base.child (.index k)).length = 1 := by
    rw [h.unanchored]
    simp [Path.child]
  have hAnchored (k : Nat) : ∀ site ∈ here.anchor,
      site.path = (here.base.child (.index k)).dropLast.dropLast ∧
      ∃ text thenArm elseArm, base.at? site.path =
        some (.conditional site.line text site.test thenArm elseArm) := by
    intro site hSite
    obtain ⟨arm, text, thenArm, elseArm, hPath, hAt⟩ := h.anchored site hSite
    refine ⟨?_, text, thenArm, elseArm, hAt⟩
    rw [hPath]
    simp [Path.child]
  cases hc with
  | @altered b m k l hb hm =>
    exact {
      inBase := fun _ => ⟨b, (h.ofBase.at? k).trans hb, rfl, rfl⟩
      notInBase := by simp [Place.altered]
      inModified := fun _ => ⟨_, m, rfl, (h.ofModified.at? l).trans hm, rfl, rfl⟩
      notInModified := by simp [Place.altered]
      insertion := by simp [Place.altered]
      unanchored := hUnanchored k
      anchored := hAnchored k }
  | @removed b k hb =>
    exact {
      inBase := fun _ => ⟨b, (h.ofBase.at? k).trans hb, rfl, rfl⟩
      notInBase := by simp [Place.removed]
      inModified := by simp [Place.removed]
      notInModified := fun _ => ⟨rfl, rfl, rfl⟩
      insertion := by simp [Place.removed]
      unanchored := hUnanchored k
      anchored := hAnchored k }
  | @added m i l hi hm =>
    exact {
      inBase := by simp [Place.added]
      notInBase := fun _ => ⟨rfl, rfl⟩
      inModified := fun _ => ⟨_, m, rfl, (h.ofModified.at? l).trans hm, rfl, rfl⟩
      notInModified := by simp [Place.added]
      insertion := fun _ => ⟨here.base, i, bs, rfl, h.ofBase, hi⟩
      unanchored := hUnanchored i
      anchored := hAnchored i }

theorem Place.Lists.wellFormed_of_inner {base modified : Tree} {here : Place}
    {bs ms : List Statement} (h : here.Lists base modified bs ms)
    (hInner : ∀ b ∈ bs, ∀ m p q, base.at? p = some b → modified.at? q = some m →
      ∀ c ∈ b.changes m p q, c.WellFormed base modified) :
    ∀ c ∈ here.changes bs ms, c.WellFormed base modified := by
  intro c hc
  rcases Place.direct_or_inner hc with hDirect | ⟨b, m, k, l, hb, hm, hc⟩
  · exact h.wellFormed hDirect
  · apply hInner b (List.mem_of_getElem? hb) m _ _ _ _ c hc
    · rw [h.ofBase.at?, hb]
    · rw [h.ofModified.at?, hm]

theorem wellFormed_inner {base modified : Tree} (b m : Statement) (p q : Path)
    (hb : base.at? p = some b) (hm : modified.at? q = some m) :
    ∀ c ∈ b.changes m p q, c.WellFormed base modified := by
  induction b using Statement.induct_arms generalizing m p q with
  | simple line text => simp [Statement.changes]
  | conditional line text test thenArm elseArm ihThen ihElse =>
    cases m with
    | simple line' text' => simp [Statement.changes]
    | conditional line' text' test' thenArm' elseArm' =>
      obtain ⟨hThen, hElse⟩ := Place.Lists.arms hb hm
      intro c hc
      rw [changes_conditional, List.mem_append] at hc
      rcases hc with hc | hc
      · exact hThen.wellFormed_of_inner ihThen c hc
      · exact hElse.wellFormed_of_inner ihElse c hc

theorem wellFormed_changes (base modified : Tree) :
    ∀ c ∈ changes base modified, c.WellFormed base modified :=
  (Place.Lists.top base modified).wellFormed_of_inner fun b _ => wellFormed_inner b

end Diff

end Reanalysis
