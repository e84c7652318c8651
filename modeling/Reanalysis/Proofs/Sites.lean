import Mathlib.Data.List.Nodup
import Reanalysis.Proofs.PathOrder
import Reanalysis.Proofs.Precedence

/-!
# The conditionals of a program

The sites of a program are its conditionals, each one once and in the order of the document
(`Tree.ordered_sites`, `Tree.mem_sites_iff`). A plan deals them out: each of its two lists keeps that
order, and every site is on exactly one of them.
-/

namespace Reanalysis

/-! ## How many there are -/

theorem Tree.armConditionalCount_eq (arm : Option (List Statement)) :
    Tree.armConditionalCount arm = Tree.conditionalCount (arm.getD []) := by
  cases arm with
  | none => rfl
  | some arm => rfl

theorem Tree.length_sitesFrom {t : List Statement}
    (h : ∀ s ∈ t, ∀ p, (s.sites p).length = s.conditionalCount) (p : Path) (i : Nat) :
    (Tree.sitesFrom p i t).length = Tree.conditionalCount t := by
  induction t generalizing i with
  | nil => rfl
  | cons s t ih =>
    rw [Tree.sitesFrom, List.length_append, Tree.conditionalCount, h s List.mem_cons_self,
      ih fun s hs => h s (List.mem_cons_of_mem _ hs)]

theorem Statement.length_sites (s : Statement) (p : Path) :
    (s.sites p).length = s.conditionalCount := by
  induction s using Statement.induct_arms generalizing p with
  | simple line text => rfl
  | conditional line text test thenArm elseArm ihThen ihElse =>
    rw [Statement.sites, Statement.conditionalCount, Tree.armSites_eq, Tree.armConditionalCount_eq,
      List.length_cons, List.length_append, Tree.length_sitesFrom ihThen,
      Tree.length_sitesFrom ihElse]
    omega

theorem Tree.length_sites (t : Tree) : t.sites.length = Tree.conditionalCount t :=
  Tree.length_sitesFrom (fun s _ => s.length_sites) [] 0

/-! ## Their order -/

/-- The first conditional comes before the second in the document. -/
def Site.Before (a b : Site) : Prop := a.path.compare b.path = .lt

theorem Site.Before.ne {a b : Site} (h : a.Before b) : a ≠ b := by
  rintro rfl
  rw [Site.Before, Path.compare_self] at h
  cases h

theorem Statement.prefix_of_mem_sites {s : Statement} {p : Path} {site : Site}
    (h : site ∈ s.sites p) : p <+: site.path := by
  obtain ⟨r, _, _, _, hPath, _⟩ := s.sites_addressed p site h
  exact ⟨r, hPath.symm⟩

theorem Tree.prefix_of_mem_sitesFrom {t : List Statement} {p : Path} {i : Nat} {site : Site}
    (h : site ∈ Tree.sitesFrom p i t) : p <+: site.path := by
  obtain ⟨k, -, hBelow⟩ := Tree.sitesFrom_below h
  exact Path.prefix_of_child hBelow

theorem Tree.ordered_sitesFrom {t : List Statement}
    (h : ∀ s ∈ t, ∀ p, (s.sites p).Pairwise Site.Before) (p : Path) (i : Nat) :
    (Tree.sitesFrom p i t).Pairwise Site.Before := by
  induction t generalizing i with
  | nil => exact .nil
  | cons s t ih =>
    rw [Tree.sitesFrom, List.pairwise_append]
    refine ⟨h s List.mem_cons_self _, ih (fun s hs => h s (List.mem_cons_of_mem _ hs)) _, ?_⟩
    intro a ha b hb
    obtain ⟨k, hk, hBelow⟩ := Tree.sitesFrom_below hb
    exact Path.lt_of_indices hk (Statement.prefix_of_mem_sites ha) hBelow

theorem Statement.ordered_sites (s : Statement) (p : Path) : (s.sites p).Pairwise Site.Before := by
  induction s using Statement.induct_arms generalizing p with
  | simple line text => exact .nil
  | conditional line text test thenArm elseArm ihThen ihElse =>
    rw [Statement.sites, Tree.armSites_eq, List.pairwise_cons, List.pairwise_append]
    refine ⟨?_, Tree.ordered_sitesFrom ihThen _ 0, Tree.ordered_sitesFrom ihElse _ 0, ?_⟩
    · intro site hSite
      rcases List.mem_append.mp hSite with hSite | hSite
      · exact Path.lt_of_encloses (Tree.prefix_of_mem_sitesFrom hSite)
      · exact Path.lt_of_encloses (Tree.prefix_of_mem_sitesFrom hSite)
    · intro a ha b hb
      exact Path.lt_of_children (s := .thenArm) (t := .elseArm) rfl
        (Tree.prefix_of_mem_sitesFrom ha) (Tree.prefix_of_mem_sitesFrom hb)

theorem Tree.ordered_sites (t : Tree) : t.sites.Pairwise Site.Before :=
  Tree.ordered_sitesFrom (fun s _ => s.ordered_sites) [] 0

theorem Tree.nodup_sites (t : Tree) : t.sites.Nodup := t.ordered_sites.imp Site.Before.ne

/-! ## Which they are -/

theorem Tree.mem_sites_iff (t : Tree) (site : Site) :
    site ∈ t.sites ↔ ∃ text thenArm elseArm,
      t.at? site.path = some (.conditional site.line text site.test thenArm elseArm) := by
  constructor
  · intro hSite
    obtain ⟨k, r, text, thenArm, elseArm, hPath, hAt⟩ :=
      Tree.sites_addressed (fun s _ => s.sites_addressed) [] 0 site hSite
    refine ⟨text, thenArm, elseArm, ?_⟩
    rw [hPath, Nat.zero_add]
    exact hAt
  · rintro ⟨text, thenArm, elseArm, hAt⟩
    exact Tree.mem_sites_of_at? hAt

/-! ## How a plan deals them out -/

namespace Plan

theorem count_dealt {sites : List Site} (h : sites.Nodup) (p : Site → Bool) {site : Site}
    (hSite : site ∈ sites) :
    (sites.filter p).count site + (sites.filter (!p ·)).count site = 1 := by
  rw [← List.count_append, (List.filter_append_perm p sites).count_eq]
  exact List.count_eq_one_of_mem h hSite

/-- The conditionals of a program are listed in the order of the document, as many as are counted, and
exactly those that a path leads to. Whatever the changes are, a plan deals them out to its two lists:
each is a sublist, they have nothing in common, and every conditional is on them once. -/
theorem conditionals_listed_and_dealt_out (base : Tree) :
    (base.sites.Pairwise fun a b => a.path.compare b.path = .lt) ∧
    base.sites.length = Tree.conditionalCount base ∧
    (∀ site, site ∈ base.sites ↔ ∃ text thenArm elseArm,
      base.at? site.path = some (.conditional site.line text site.test thenArm elseArm)) ∧
    ∀ changes, let plan := compute base changes
      plan.invalidated.Sublist base.sites ∧ plan.reusable.Sublist base.sites ∧
      plan.invalidated.Disjoint plan.reusable ∧
      (plan.invalidated ++ plan.reusable).Perm base.sites ∧
      ∀ site ∈ base.sites, plan.invalidated.count site + plan.reusable.count site = 1 := by
  refine ⟨base.ordered_sites, base.length_sites, base.mem_sites_iff, ?_⟩
  intro changes plan
  refine ⟨List.filter_sublist, List.filter_sublist, ?_, List.filter_append_perm _ _, ?_⟩
  · intro site hInvalidated hReusable
    have hHit := (List.mem_filter.mp hInvalidated).2
    have hSpared := (List.mem_filter.mp hReusable).2
    rw [hHit] at hSpared
    cases hSpared
  · intro site hSite
    exact count_dealt base.nodup_sites _ hSite

end Plan

end Reanalysis
