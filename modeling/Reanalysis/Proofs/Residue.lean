import Reanalysis.Diff.Scripts
import Reanalysis.Proofs.Equivalence

/-!
# What changes leave over

The statements that a list of changes names in one version, and what is left of that version
without them. The left-overs of both versions are equivalent. The argument is the same for both
versions, so that it is made once, for the version as a parameter.
-/

namespace Reanalysis

open Diff

def Diff.Version.pick {α : Type} (base modified : α) : Version → α
  | .base => base
  | .modified => modified

@[simp] theorem Diff.Version.pick_base {α : Type} (x y : α) : Version.base.pick x y = x := rfl

@[simp] theorem Diff.Version.pick_modified {α : Type} (x y : α) :
    Version.modified.pick x y = y := rfl

/-- The path of the statement that a change names in a version, if it is about one. -/
def Change.named? (v : Version) (c : Change) : Option Path :=
  match v with
  | .base => if c.kind = .altered ∨ c.kind = .removed then some c.path else none
  | .modified => if c.kind = .altered ∨ c.kind = .added then c.modifiedPath else none

def Diff.named (v : Version) (cs : List Change) : List Path := cs.filterMap (·.named? v)

mutual

def Statement.without (gone : List Path) (path : Path) : Statement → Statement
  | .simple line text => .simple line text
  | .conditional line text test thenArm elseArm =>
    .conditional line text test (Tree.withoutFrom gone (path.child .thenArm) 0 thenArm)
      (Tree.armWithout gone (path.child .elseArm) elseArm)

/-- Without the statements at the paths in `gone`, for the statements from index `i` on of the list
at `path`. Indices count the statements that are left out too. -/
def Tree.withoutFrom (gone : List Path) (path : Path) (i : Nat) : List Statement → List Statement
  | [] => []
  | s :: rest =>
    if path.child (.index i) ∈ gone then Tree.withoutFrom gone path (i + 1) rest
    else s.without gone (path.child (.index i)) :: Tree.withoutFrom gone path (i + 1) rest

def Tree.armWithout (gone : List Path) (path : Path) :
    Option (List Statement) → Option (List Statement)
  | none => none
  | some arm => some (Tree.withoutFrom gone path 0 arm)

end

def Tree.without (gone : List Path) (t : Tree) : Tree := Tree.withoutFrom gone [] 0 t

theorem Tree.withoutFrom_cons_gone {gone : List Path} {path : Path} {i : Nat} (s : Statement)
    (rest : List Statement) (h : path.child (.index i) ∈ gone) :
    Tree.withoutFrom gone path i (s :: rest) = Tree.withoutFrom gone path (i + 1) rest := by
  rw [Tree.withoutFrom, if_pos h]

theorem Tree.withoutFrom_cons_left {gone : List Path} {path : Path} {i : Nat} (s : Statement)
    (rest : List Statement) (h : path.child (.index i) ∉ gone) :
    Tree.withoutFrom gone path i (s :: rest) =
      s.without gone (path.child (.index i)) :: Tree.withoutFrom gone path (i + 1) rest := by
  rw [Tree.withoutFrom, if_neg h]

theorem Tree.armWithout_getD (gone : List Path) (path : Path) (arm : Option (List Statement)) :
    (Tree.armWithout gone path arm).getD [] = Tree.withoutFrom gone path 0 (arm.getD []) := by
  cases arm with
  | none => rfl
  | some arm => rfl

theorem Change.Within.named? {c : Change} {p q r : Path} (h : c.Within p q) (v : Version)
    (hr : c.named? v = some r) : v.pick p q <+: r := by
  cases v with
  | base =>
    obtain ⟨_, ⟨⟩⟩ := Option.ite_none_right_eq_some.mp hr
    exact h.1
  | modified =>
    obtain ⟨_, hr⟩ := Option.ite_none_right_eq_some.mp hr
    exact h.2 r hr

namespace Diff

def Place.path (here : Place) (v : Version) : Path := v.pick here.base here.modified

@[simp] theorem named_append (v : Version) (cs ds : List Change) :
    named v (cs ++ ds) = named v cs ++ named v ds := List.filterMap_append

theorem mem_named_iff {v : Version} {cs : List Change} {r : Path} :
    r ∈ named v cs ↔ ∃ c ∈ cs, c.named? v = some r := List.mem_filterMap

theorem Place.named_gap (here : Place) (v : Version) (index : Nat)
    (deleted inserted : List Indexed) :
    named v (here.gap index deleted inserted) =
      (v.pick deleted inserted).map fun x => (here.path v).child (.index x.2) := by
  fun_induction here.gap index deleted inserted with
  | case1 inserted =>
    cases v with
    | base => simp [named, Change.named?, Place.added]
    | modified => simp [named, Change.named?, Place.added, Place.path, Function.comp_def]
  | case2 deleted =>
    cases v with
    | base => simp [named, Change.named?, Place.removed, Place.path, Function.comp_def]
    | modified => simp [named, Change.named?, Place.removed]
  | case3 b deleted m inserted ih =>
    cases v with
    | base => simpa [named, Change.named?, Place.altered, Place.path] using ih
    | modified => simpa [named, Change.named?, Place.altered, Place.path] using ih

def index? (v : Version) : Edit ((Statement × Inner) × Nat) Indexed → Option Nat
  | .keep (_, i) (_, j) => some (v.pick i j)
  | .delete (_, i) => v.pick (some i) none
  | .insert (_, j) => v.pick none (some j)

/-- The paths that the changes of an edit name in a version. -/
def Place.namedBy (here : Place) (v : Version) :
    Edit ((Statement × Inner) × Nat) Indexed → List Path
  | .keep ((_, inner), i) (m, j) =>
    named v (inner m (here.base.child (.index i)) (here.modified.child (.index j)))
  | .delete (_, i) => v.pick [here.base.child (.index i)] []
  | .insert (_, j) => v.pick [] [here.modified.child (.index j)]

theorem Place.named_collect (here : Place) (v : Version) (size : Nat) (es : Edits)
    (deleted inserted : List Indexed) :
    named v (here.collect size es deleted inserted) =
      ((v.pick deleted inserted).map fun x => (here.path v).child (.index x.2)) ++
        es.flatMap (here.namedBy v) := by
  fun_induction here.collect size es deleted inserted with
  | case1 deleted inserted => simp [here.named_gap]
  | case2 s inner i rest deleted inserted ih =>
    rw [ih]
    cases v <;> simp [Place.namedBy, Place.path]
  | case3 m rest deleted inserted ih =>
    rw [ih]
    cases v <;> simp [Place.namedBy, Place.path]
  | case4 s inner i m j rest deleted inserted ih =>
    rw [named_append, named_append, here.named_gap, ih]
    cases v <;> simp [Place.namedBy]

/-! ## One edit for each index -/

theorem Aligned.of_keep {i j k l : Nat} {b m : Statement} {inner : Inner} {bs ms : List Statement}
    {es : Edits} (h : Aligned i j bs ms es) (he : .keep ((b, inner), k) (m, l) ∈ es) :
    inner = b.changes ∧ b ∈ bs ∧ m ∈ ms ∧ b.key = m.key := by
  induction h with
  | nil => cases he
  | keep hKey _ ih =>
    rcases List.mem_cons.mp he with he | he
    · cases he
      exact ⟨rfl, List.mem_cons_self, List.mem_cons_self, hKey⟩
    · obtain ⟨hInner, hb, hm, hKey⟩ := ih he
      exact ⟨hInner, List.mem_cons_of_mem _ hb, List.mem_cons_of_mem _ hm, hKey⟩
  | delete _ _ ih =>
    rcases List.mem_cons.mp he with he | he
    · cases he
    · obtain ⟨hInner, hb, hm, hKey⟩ := ih he
      exact ⟨hInner, List.mem_cons_of_mem _ hb, hm, hKey⟩
  | insert _ _ ih =>
    rcases List.mem_cons.mp he with he | he
    · cases he
    · obtain ⟨hInner, hb, hm, hKey⟩ := ih he
      exact ⟨hInner, hb, List.mem_cons_of_mem _ hm, hKey⟩

theorem Aligned.le_index {i j k : Nat} {bs ms : List Statement} {es : Edits}
    (h : Aligned i j bs ms es) (v : Version)
    {e : Edit ((Statement × Inner) × Nat) Indexed} (he : e ∈ es) (hk : index? v e = some k) :
    v.pick i j ≤ k := by
  induction h with
  | nil => cases he
  | keep _ _ ih | delete _ _ ih | insert _ _ ih =>
    rcases List.mem_cons.mp he with rfl | he
    · cases v <;> simp [index?] at hk ⊢ <;> omega
    · have := ih he
      cases v <;> simp at this ⊢ <;> omega

theorem Aligned.eq_of_index {i j k : Nat} {bs ms : List Statement} {es : Edits}
    (h : Aligned i j bs ms es) (v : Version)
    {e f : Edit ((Statement × Inner) × Nat) Indexed} (he : e ∈ es) (hf : f ∈ es)
    (hke : index? v e = some k) (hkf : index? v f = some k) : e = f := by
  induction h with
  | nil => cases he
  | keep _ hRest ih | delete _ hRest ih | insert _ hRest ih =>
    rcases List.mem_cons.mp he with rfl | he <;> rcases List.mem_cons.mp hf with rfl | hf
    · rfl
    · have := hRest.le_index v hf hkf
      cases v <;> simp [index?] at hke this <;> omega
    · have := hRest.le_index v he hke
      cases v <;> simp [index?] at hkf this <;> omega
    · exact ih he hf

theorem Aligned.index_of_mem_namedBy {here : Place} {i j : Nat} {bs ms : List Statement}
    {es : Edits} (h : Aligned i j bs ms es) {v : Version}
    {e : Edit ((Statement × Inner) × Nat) Indexed} (he : e ∈ es) {r : Path}
    (hr : r ∈ here.namedBy v e) :
    ∃ k, index? v e = some k ∧ (here.path v).child (.index k) <+: r := by
  cases e with
  | keep b m =>
    obtain ⟨⟨b, inner⟩, k⟩ := b
    obtain ⟨m, l⟩ := m
    obtain ⟨rfl, _⟩ := h.of_keep he
    obtain ⟨c, hc, hr⟩ := mem_named_iff.mp hr
    have hPrefix := (within_statement hc).named? v hr
    refine ⟨v.pick k l, rfl, ?_⟩
    cases v <;> exact hPrefix
  | delete b =>
    cases v <;> simp [Place.namedBy] at hr
    exact ⟨b.2, rfl, hr ▸ List.prefix_rfl⟩
  | insert m =>
    cases v <;> simp [Place.namedBy] at hr
    exact ⟨m.2, rfl, hr ▸ List.prefix_rfl⟩

theorem Aligned.mem_named_keep (here : Place) {i j k l : Nat} {b m : Statement} {inner : Inner}
    {bs ms : List Statement} {es : Edits}
    (h : Aligned i j bs ms es) (he : .keep ((b, inner), k) (m, l) ∈ es) (v : Version) (r : Path) :
    (here.path v).child (.index (v.pick k l)) ++ r ∈ es.flatMap (here.namedBy v) ↔
      (here.path v).child (.index (v.pick k l)) ++ r ∈
        named v (b.changes m (here.base.child (.index k)) (here.modified.child (.index l))) := by
  obtain ⟨rfl, _⟩ := h.of_keep he
  constructor
  · intro hr
    obtain ⟨f, hf, hr⟩ := List.mem_flatMap.mp hr
    obtain ⟨k', hIndex, hPrefix⟩ := h.index_of_mem_namedBy hf hr
    cases (Path.child_prefix_iff _ _ _ _).mp hPrefix
    cases h.eq_of_index v hf he hIndex rfl
    exact hr
  · intro hr
    exact List.mem_flatMap.mpr ⟨_, he, hr⟩

/-! ## The left-overs of both versions -/

/-- Below `p` and `q`, the paths that are gone are those the changes name. -/
def Names (gone : Version → List Path) (p q : Path) (cs : List Change) : Prop :=
  ∀ v r, v.pick p q ++ r ∈ gone v ↔ v.pick p q ++ r ∈ named v cs

/-- What is deleted or inserted is gone, and what is kept is left over alike. -/
def Place.Settles (here : Place) (gone : Version → List Path) :
    Edit ((Statement × Inner) × Nat) Indexed → Prop
  | .delete (_, k) => here.base.child (.index k) ∈ gone .base
  | .insert (_, l) => here.modified.child (.index l) ∈ gone .modified
  | .keep ((b, _), k) (m, l) =>
    here.base.child (.index k) ∉ gone .base ∧ here.modified.child (.index l) ∉ gone .modified ∧
      (b.without (gone .base) (here.base.child (.index k))).Equivalent
        (m.without (gone .modified) (here.modified.child (.index l)))

theorem Aligned.equivalent_without {here : Place} {i j : Nat} {bs ms : List Statement}
    {es : Edits} (h : Aligned i j bs ms es) {gone : Version → List Path}
    (hEdits : ∀ e ∈ es, here.Settles gone e) :
    List.Forall₂ Statement.Equivalent (Tree.withoutFrom (gone .base) here.base i bs)
      (Tree.withoutFrom (gone .modified) here.modified j ms) := by
  induction h with
  | nil => exact .nil
  | keep _ _ ih =>
    obtain ⟨hBase, hModified, hEquivalent⟩ := hEdits _ List.mem_cons_self
    rw [Tree.withoutFrom_cons_left _ _ hBase, Tree.withoutFrom_cons_left _ _ hModified]
    exact .cons hEquivalent (ih fun e he => hEdits e (List.mem_cons_of_mem _ he))
  | delete _ _ ih =>
    rw [Tree.withoutFrom_cons_gone _ _ (hEdits _ List.mem_cons_self)]
    exact ih fun e he => hEdits e (List.mem_cons_of_mem _ he)
  | insert _ _ ih =>
    rw [Tree.withoutFrom_cons_gone _ _ (hEdits _ List.mem_cons_self)]
    exact ih fun e he => hEdits e (List.mem_cons_of_mem _ he)

theorem not_mem_named_self (v : Version) (b m : Statement) (p q : Path) :
    v.pick p q ∉ named v (b.changes m p q) := by
  intro h
  obtain ⟨c, hc, hr⟩ := mem_named_iff.mp h
  obtain ⟨arm, _, hWithin⟩ := within_arm b m p q c hc
  have hLength := (hWithin.named? v hr).length_le
  cases v <;>
    simp only [Version.pick_base, Version.pick_modified, Path.child, List.length_append,
      List.length_singleton] at hLength <;> omega

theorem Place.equivalent_without (here : Place) {bs ms : List Statement}
    {gone : Version → List Path} (hGone : Names gone here.base here.modified (here.changes bs ms))
    (hInner : ∀ b ∈ bs, ∀ m ∈ ms, b.key = m.key → ∀ p q, Names gone p q (b.changes m p q) →
      (b.without (gone .base) p).Equivalent (m.without (gone .modified) q)) :
    List.Forall₂ Statement.Equivalent (Tree.withoutFrom (gone .base) here.base 0 bs)
      (Tree.withoutFrom (gone .modified) here.modified 0 ms) := by
  obtain ⟨es, hAligned, hChanges⟩ := here.changes_aligned bs ms
  have hNamed : ∀ v r,
      here.path v ++ r ∈ gone v ↔ here.path v ++ r ∈ es.flatMap (here.namedBy v) := by
    intro v r
    rw [Place.path, hGone v r, hChanges, here.named_collect]
    cases v <;> simp
  apply hAligned.equivalent_without
  intro e he
  cases e with
  | keep b m =>
    obtain ⟨⟨b, inner⟩, k⟩ := b
    obtain ⟨m, l⟩ := m
    obtain ⟨rfl, hb, hm, hKey⟩ := hAligned.of_keep he
    have hBelow : Names gone (here.base.child (.index k)) (here.modified.child (.index l))
        (b.changes m (here.base.child (.index k)) (here.modified.child (.index l))) := by
      intro v r
      have hKept := hAligned.mem_named_keep here he v r
      rw [Path.child, List.append_assoc, ← hNamed v, ← List.append_assoc] at hKept
      cases v <;> exact hKept
    have hSelf : ∀ v : Version,
        v.pick (here.base.child (.index k)) (here.modified.child (.index l)) ∉ gone v := by
      intro v hMem
      apply not_mem_named_self v b m
      simpa using (hBelow v []).mp (by simpa using hMem)
    exact ⟨hSelf .base, hSelf .modified, hInner b hb m hm hKey _ _ hBelow⟩
  | delete b =>
    exact (hNamed .base [.index b.2]).mpr (List.mem_flatMap.mpr ⟨_, he, List.mem_singleton.mpr rfl⟩)
  | insert m =>
    exact (hNamed .modified [.index m.2]).mpr
      (List.mem_flatMap.mpr ⟨_, he, List.mem_singleton.mpr rfl⟩)

theorem within_armPlace {p q : Path} {test : String} {line : Nat} {a : Segment}
    {bs ms : List Statement} (c : Change) (hc : c ∈ (armPlace p q test line a).changes bs ms) :
    c.Within (p.child a) (q.child a) := by
  obtain ⟨_, _, hWithin⟩ := Place.within_changes hc
  exact hWithin.parent

theorem Names.append_comm {gone : Version → List Path} {p q : Path} {cs ds : List Change}
    (h : Names gone p q (cs ++ ds)) : Names gone p q (ds ++ cs) := by
  intro v r
  rw [h v r, named_append, named_append, List.mem_append, List.mem_append, or_comm]

theorem Names.child {gone : Version → List Path} {p q : Path} {a a' : Segment}
    {cs ds : List Change} (h : Names gone p q (cs ++ ds)) (hApart : a' ≠ a)
    (hOther : ∀ d ∈ ds, d.Within (p.child a') (q.child a')) :
    Names gone (p.child a) (q.child a) cs := by
  intro v r
  have hPath : v.pick (p.child a) (q.child a) ++ r = v.pick p q ++ a :: r := by
    cases v <;> simp [Path.child]
  have hNot : v.pick (p.child a) (q.child a) ++ r ∉ named v ds := by
    intro hr
    obtain ⟨d, hd, hr⟩ := mem_named_iff.mp hr
    have hBelow := (hOther d hd).named? v hr
    cases v <;> exact hApart ((Path.child_prefix_iff _ _ _ _).mp hBelow)
  have hHere := h v (a :: r)
  rwa [← hPath, named_append, List.mem_append, or_iff_left hNot] at hHere

theorem statement_equivalent_without (gone : Version → List Path) (b m : Statement)
    (hKey : b.key = m.key) (hClear : b.Clear m) (p q : Path)
    (hGone : Names gone p q (b.changes m p q)) :
    (b.without (gone .base) p).Equivalent (m.without (gone .modified) q) := by
  induction b using Statement.induct_arms generalizing m p q with
  | simple line text =>
    cases m with
    | simple line' text' =>
      cases hKey
      exact .simple _ _ _
    | conditional line' text' test' thenArm' elseArm' =>
      exact absurd ⟨hKey, nofun⟩ hClear.not_sharesKey
  | conditional line text test thenArm elseArm ihThen ihElse =>
    cases m with
    | simple line' text' =>
      exact absurd ⟨hKey, nofun⟩ hClear.not_sharesKey
    | conditional line' text' test' thenArm' elseArm' =>
      cases hKey
      rw [changes_conditional] at hGone
      have hThen := hGone.child (a := .thenArm) (by decide) within_armPlace
      have hElse := hGone.append_comm.child (a := .elseArm) (by decide) within_armPlace
      refine .conditional _ _ _ _ _ ?_ ?_
      · apply (armPlace p q test line .thenArm).equivalent_without hThen
        intro b hb m hm hKey p q hGone
        exact ihThen b hb m hKey (hClear.arm .thenArm b hb m hm) p q hGone
      · rw [Tree.armWithout_getD, Tree.armWithout_getD]
        apply (armPlace p q test line .elseArm).equivalent_without hElse
        intro b hb m hm hKey p q hGone
        exact ihElse b hb m hKey (hClear.arm .elseArm b hb m hm) p q hGone

/-- Without the statements that the changes name, two versions are equivalent. -/
theorem equivalent_without_changes (base modified : Tree) (h : base.Unambiguous modified) :
    (base.without (named .base (Diff.changes base modified))).Equivalent
      (modified.without (named .modified (Diff.changes base modified))) := by
  have hGone : Names (fun v => named v (Diff.changes base modified)) [] []
      (Diff.changes base modified) := fun v r => Iff.rfl
  apply Place.equivalent_without ⟨[], [], none⟩ hGone
  intro b hb m hm hKey p q hGone
  exact statement_equivalent_without _ b m hKey (h.clear b hb m hm) p q hGone

/-- A removal before a kept conditional, an addition in its arm and another in an alternative that
only the modified version has. -/
theorem equivalent_without_changes_in_arms :
    Tree.Unambiguous
      [.simple 1 "read ( x ) ;", .conditional 2 "if ( x ) { log ( 1 ) ; }" "( x )"
        [.simple 3 "log ( 1 ) ;"] none]
      [.conditional 1 "if ( x ) { log ( 2 ) ; log ( 1 ) ; } else { log ( 3 ) ; }" "( x )"
        [.simple 2 "log ( 2 ) ;", .simple 3 "log ( 1 ) ;"] (some [.simple 5 "log ( 3 ) ;"])] ∧
    Tree.Equivalent
      [.conditional 2 "if ( x ) { log ( 1 ) ; }" "( x )" [.simple 3 "log ( 1 ) ;"] none]
      [.conditional 1 "if ( x ) { log ( 2 ) ; log ( 1 ) ; } else { log ( 3 ) ; }" "( x )"
        [.simple 3 "log ( 1 ) ;"] (some [])] :=
  ⟨by decide, equivalent_without_changes
    [.simple 1 "read ( x ) ;", .conditional 2 "if ( x ) { log ( 1 ) ; }" "( x )"
      [.simple 3 "log ( 1 ) ;"] none]
    [.conditional 1 "if ( x ) { log ( 2 ) ; log ( 1 ) ; } else { log ( 3 ) ; }" "( x )"
      [.simple 2 "log ( 2 ) ;", .simple 3 "log ( 1 ) ;"] (some [.simple 5 "log ( 3 ) ;"])]
    (by decide)⟩

end Diff

end Reanalysis
