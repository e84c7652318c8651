import Reanalysis.Diff.Change
import Reanalysis.Proofs.Address
import Reanalysis.Proofs.Alignment

/-!
# What a comparison of two lists can report

A comparison is described by the edit script behind it. `Aligned` is that script with the indices
of both lists, `Place.within_changes` says where the changes of a comparison lie, and
`Aligned.keep_or_change` that a script which leaves the matches reports so at that very index.
-/

namespace Reanalysis

namespace Diff

theorem comparable_eq_map (bs : List Statement) :
    comparable bs = bs.map fun s => (s, s.changes) := by
  induction bs with
  | nil => rfl
  | cons s bs ih => rw [comparable, ih]; rfl

theorem comparableArm_eq (arm : Option (List Statement)) :
    comparableArm arm = comparable (arm.getD []) := by
  cases arm with
  | none => rfl
  | some arm => rfl

def Place.changes (here : Place) (bs ms : List Statement) : List Change :=
  here.compare (comparable bs) ms

/-- The place of the arms `arm` of two matched conditionals at `p` and `q`. -/
def armPlace (p q : Path) (test : String) (line : Nat) (arm : Segment) : Place :=
  ⟨p.child arm, q.child arm, some ⟨p, test, line⟩⟩

theorem changes_conditional (line line' : Nat) (text text' test test' : String)
    (thenArm thenArm' : List Statement) (elseArm elseArm' : Option (List Statement)) (p q : Path) :
    Statement.changes (.conditional line text test thenArm elseArm)
        (.conditional line' text' test' thenArm' elseArm') p q =
      (armPlace p q test line .thenArm).changes thenArm thenArm' ++
        (armPlace p q test line .elseArm).changes (elseArm.getD []) (elseArm'.getD []) := by
  rw [Statement.changes, comparableArm_eq]
  rfl

/-- The edits between two lists of statements, each statement with its index. -/
abbrev Edits := List (Edit ((Statement × Inner) × Nat) Indexed)

/-- The edit script of a comparison, with the indices of the first statements of both lists. -/
inductive Aligned : Nat → Nat → List Statement → List Statement → Edits → Prop
  | nil {i j : Nat} : Aligned i j [] [] []
  | keep {i j : Nat} {b m : Statement} {bs ms : List Statement} {es : Edits} :
      b.key = m.key → Aligned (i + 1) (j + 1) bs ms es →
      Aligned i j (b :: bs) (m :: ms) (.keep ((b, b.changes), i) (m, j) :: es)
  | delete {i j : Nat} {b : Statement} {bs ms : List Statement} {es : Edits} :
      (∀ m ∈ ms.head?, b.key ≠ m.key) → Aligned (i + 1) j bs ms es →
      Aligned i j (b :: bs) ms (.delete ((b, b.changes), i) :: es)
  | insert {i j : Nat} {m : Statement} {bs ms : List Statement} {es : Edits} :
      (∀ b ∈ bs.head?, b.key ≠ m.key) → Aligned i (j + 1) bs ms es →
      Aligned i j bs (m :: ms) (.insert (m, j) :: es)

theorem aligned_of_aligns {i j : Nat} {bs ms : List Statement} {es : Edits}
    (h : Alignment.Aligns (fun b m => decide (b.1.1.key = m.1.key))
      ((comparable bs).zipIdx i) (ms.zipIdx j) es) : Aligned i j bs ms es := by
  generalize hb : (comparable bs).zipIdx i = xs at h
  generalize hm : ms.zipIdx j = ys at h
  induction h generalizing i j bs ms with
  | nil =>
    cases bs <;> cases ms <;> simp [comparable] at hb hm
    exact .nil
  | keep hSame _ ih =>
    cases bs <;> cases ms <;> simp [comparable] at hb hm
    obtain ⟨rfl, hb⟩ := hb
    obtain ⟨rfl, hm⟩ := hm
    exact .keep (by simpa using hSame) (ih hb hm)
  | delete hApart _ ih =>
    cases bs <;> simp [comparable] at hb
    obtain ⟨rfl, hb⟩ := hb
    refine .delete ?_ (ih hb hm)
    intro m hHead
    cases ms <;> simp at hm hHead
    subst hm hHead
    simpa using hApart
  | insert hApart _ ih =>
    cases ms <;> simp at hm
    obtain ⟨rfl, hm⟩ := hm
    refine .insert ?_ (ih hb hm)
    intro b hHead
    cases bs <;> simp [comparable] at hb hHead
    subst hb hHead
    simpa using hApart

theorem Place.changes_aligned (here : Place) (bs ms : List Statement) :
    ∃ es, Aligned 0 0 bs ms es ∧ here.changes bs ms = here.collect bs.length es [] [] := by
  refine ⟨_, aligned_of_aligns (Alignment.aligns_align _ _ _), ?_⟩
  simp only [Place.changes, Place.compare, comparable_eq_map, List.length_map]

/-! ## Where the changes lie -/

end Diff

/-- The change lies at or below `p` in the base and at or below `q` in the modified program. -/
def Change.Within (c : Change) (p q : Path) : Prop :=
  p <+: c.path ∧ ∀ r ∈ c.modifiedPath, q <+: r

theorem Change.Within.parent {c : Change} {p q : Path} {s t : Segment}
    (h : c.Within (p.child s) (q.child t)) : c.Within p q :=
  ⟨(List.prefix_append p [s]).trans h.1, fun r hr => (List.prefix_append q [t]).trans (h.2 r hr)⟩

namespace Diff

theorem Place.within_gap {here : Place} {index : Nat} {deleted inserted : List Indexed} {c : Change}
    (h : c ∈ here.gap index deleted inserted) :
    ∃ k l, c.Within (here.base.child (.index k)) (here.modified.child (.index l)) := by
  fun_induction here.gap index deleted inserted with
  | case1 inserted =>
    obtain ⟨m, _, rfl⟩ := List.mem_map.mp h
    exact ⟨index, m.2, List.prefix_rfl, by simp [Place.added]⟩
  | case2 deleted =>
    obtain ⟨b, _, rfl⟩ := List.mem_map.mp h
    exact ⟨b.2, 0, List.prefix_rfl, by simp [Place.removed]⟩
  | case3 b deleted m inserted ih =>
    rcases List.mem_cons.mp h with rfl | h
    · exact ⟨b.2, m.2, List.prefix_rfl, by simp [Place.altered]⟩
    · exact ih h

theorem Aligned.within {here : Place} {size i j : Nat} {bs ms : List Statement}
    {es : Edits} (h : Aligned i j bs ms es)
    (hInner : ∀ b ∈ bs, ∀ m p q, ∀ c ∈ b.changes m p q, c.Within p q)
    (deleted inserted : List Indexed) :
    ∀ c ∈ here.collect size es deleted inserted,
      ∃ k l, c.Within (here.base.child (.index k)) (here.modified.child (.index l)) := by
  induction h generalizing deleted inserted with
  | nil => exact fun c hc => Place.within_gap hc
  | @keep i j b m bs ms es _ _ ih =>
    intro c hc
    simp only [Place.collect, List.mem_append] at hc
    rcases hc with (hc | hc) | hc
    · exact Place.within_gap hc
    · exact ⟨i, j, hInner b (by simp) m _ _ c hc⟩
    · exact ih (fun b hb => hInner b (by simp [hb])) [] [] c hc
  | delete _ _ ih => exact ih (fun b hb => hInner b (by simp [hb])) _ _
  | insert _ _ ih => exact ih hInner _ _

theorem Place.within_of_inner {here : Place} {bs ms : List Statement}
    (hInner : ∀ b ∈ bs, ∀ m p q, ∀ c ∈ b.changes m p q, c.Within p q) {c : Change}
    (hc : c ∈ here.changes bs ms) :
    ∃ k l, c.Within (here.base.child (.index k)) (here.modified.child (.index l)) := by
  obtain ⟨es, hAligned, hChanges⟩ := here.changes_aligned bs ms
  exact hAligned.within hInner [] [] c (hChanges ▸ hc)

theorem within_arm (b m : Statement) (p q : Path) :
    ∀ c ∈ b.changes m p q, ∃ arm, (arm = .thenArm ∨ arm = .elseArm) ∧
      c.Within (p.child arm) (q.child arm) := by
  induction b using Statement.induct_arms generalizing m p q with
  | simple line text => simp [Statement.changes]
  | conditional line text test thenArm elseArm ihThen ihElse =>
    intro c hc
    cases m with
    | simple line' text' => simp [Statement.changes] at hc
    | conditional line' text' test' thenArm' elseArm' =>
      have inner : ∀ arm : List Statement,
          (∀ b ∈ arm, ∀ m p q, ∀ c ∈ b.changes m p q, ∃ arm, (arm = .thenArm ∨ arm = .elseArm) ∧
            c.Within (p.child arm) (q.child arm)) →
          ∀ b ∈ arm, ∀ m p q, ∀ c ∈ b.changes m p q, c.Within p q := by
        intro arm ih b hb m p q c hc
        obtain ⟨_, _, hWithin⟩ := ih b hb m p q c hc
        exact hWithin.parent
      rw [changes_conditional, List.mem_append] at hc
      rcases hc with hc | hc
      · obtain ⟨_, _, hWithin⟩ := Place.within_of_inner (inner _ ihThen) hc
        exact ⟨.thenArm, .inl rfl, hWithin.parent⟩
      · obtain ⟨_, _, hWithin⟩ := Place.within_of_inner (inner _ ihElse) hc
        exact ⟨.elseArm, .inr rfl, hWithin.parent⟩

theorem within_statement {b m : Statement} {p q : Path} {c : Change} (hc : c ∈ b.changes m p q) :
    c.Within p q := by
  obtain ⟨_, _, hWithin⟩ := within_arm b m p q c hc
  exact hWithin.parent

theorem Place.within_changes {here : Place} {bs ms : List Statement} {c : Change}
    (hc : c ∈ here.changes bs ms) :
    ∃ k l, c.Within (here.base.child (.index k)) (here.modified.child (.index l)) :=
  Place.within_of_inner (fun _ _ _ _ _ _ hc => within_statement hc) hc

/-! ## The first departure from the matches -/

/-- An open gap that starts at index `k` of the base list, which goes on at index `index`. -/
def OpenAt (k index : Nat) (deleted inserted : List Indexed) : Prop :=
  (∃ s rest, deleted = (s, k) :: rest) ∨ (deleted = [] ∧ inserted ≠ [] ∧ k = index)

theorem Place.exists_gap_at (here : Place) {k index : Nat} {deleted inserted : List Indexed}
    (h : OpenAt k index deleted inserted) :
    ∃ c ∈ here.gap index deleted inserted, c.path = here.base.child (.index k) := by
  rcases h with ⟨s, rest, rfl⟩ | ⟨rfl, hInserted, rfl⟩
  · cases inserted with
    | nil => exact ⟨_, List.mem_cons_self, rfl⟩
    | cons m inserted => exact ⟨_, List.mem_cons_self, rfl⟩
  · obtain ⟨m, inserted, rfl⟩ := List.exists_cons_of_ne_nil hInserted
    exact ⟨_, List.mem_cons_self, rfl⟩

theorem Aligned.exists_change_at {here : Place} {size i j k : Nat} {bs ms : List Statement}
    {es : Edits} (h : Aligned i j bs ms es) (hSize : size = i + bs.length)
    {deleted inserted : List Indexed}
    (hOpen : OpenAt k i deleted inserted) :
    ∃ c ∈ here.collect size es deleted inserted, c.path = here.base.child (.index k) := by
  induction h generalizing deleted inserted with
  | nil => exact here.exists_gap_at (hSize ▸ hOpen)
  | keep _ _ _ =>
    obtain ⟨c, hc, hPath⟩ := here.exists_gap_at hOpen
    exact ⟨c, by simp [Place.collect, hc], hPath⟩
  | @delete i j b bs ms es _ _ ih =>
    apply ih (by simp only [hSize, List.length_cons]; omega)
    rcases hOpen with ⟨s, rest, rfl⟩ | ⟨rfl, _, rfl⟩
    · exact .inl ⟨s, rest ++ [(b, i)], rfl⟩
    · exact .inl ⟨b, [], rfl⟩
  | @insert i j m bs ms es _ _ ih =>
    apply ih hSize
    rcases hOpen with hDeleted | ⟨hDeleted, _, hk⟩
    · exact .inl hDeleted
    · exact .inr ⟨hDeleted, by simp, hk⟩

/-- A script that starts with a match passes over it. Any other script reports a change at the index
it starts from. -/
theorem Aligned.keep_or_change (here : Place) {size i j : Nat} {bs ms : List Statement}
    {es : Edits} (h : Aligned i j bs ms es) (hSize : size = i + bs.length) :
    (bs = [] ∧ ms = [] ∧ here.collect size es [] [] = []) ∨
    (∃ b m bs' ms' es', bs = b :: bs' ∧ ms = m :: ms' ∧ b.key = m.key ∧
      Aligned (i + 1) (j + 1) bs' ms' es' ∧ here.collect size es [] [] =
        b.changes m (here.base.child (.index i)) (here.modified.child (.index j)) ++
          here.collect size es' [] []) ∨
    (bs.head?.map Statement.key ≠ ms.head?.map Statement.key ∧
      ∃ c ∈ here.collect size es [] [], c.path = here.base.child (.index i)) := by
  cases h with
  | nil => exact .inl ⟨rfl, rfl, rfl⟩
  | @keep _ _ b m bs ms es hKey hRest =>
    exact .inr (.inl ⟨b, m, bs, ms, es, rfl, rfl, hKey, hRest, rfl⟩)
  | @delete _ _ b bs ms es hApart hRest =>
    refine .inr (.inr ⟨?_, ?_⟩)
    · cases ms <;> simp at hApart ⊢
      exact hApart
    · exact hRest.exists_change_at (by simp only [hSize, List.length_cons]; omega)
        (.inl ⟨b, [], rfl⟩)
  | @insert _ _ m bs ms es hApart hRest =>
    refine .inr (.inr ⟨?_, ?_⟩)
    · cases bs <;> simp at hApart ⊢
      exact hApart
    · exact hRest.exists_change_at hSize (.inr ⟨rfl, by simp, rfl⟩)

end Diff

end Reanalysis
