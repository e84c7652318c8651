import Reanalysis.Proofs.ChangeOrder
import Reanalysis.Proofs.Precedence

/-!
# Where to resume

What a change affects comes at or behind it in the order of the document. The conditional around the
first change comes before every change, so nothing up to it is affected, and exploration can resume
there.
-/

namespace Reanalysis

namespace Plan

theorem le_of_affects {p q : Path} (h : affects p q = true) : p.le q = true := by
  induction p generalizing q with
  | nil => cases q <;> rfl
  | cons s p ih =>
    cases q with
    | nil => cases h
    | cons t q =>
      rcases (affects_cons_iff s t p q).mp h with ⟨rfl, hRest⟩ | ⟨i, j, rfl, rfl, hLess⟩
      · have hTail := ih hRest
        rw [Path.le_iff] at hTail ⊢
        rwa [← Path.compare_append [s] p q] at hTail
      · apply Path.le_of_lt
        have hHeads : Segment.compare (.index i) (.index j) = .lt := Nat.compare_eq_lt.mpr hLess
        rw [Path.compare, hHeads]
        rfl

theorem earliest?_eq_head? {changes : List Change}
    (h : changes.Pairwise fun c d => c.path.le d.path = true) :
    earliest? changes = changes.head? := by
  induction changes with
  | nil => rfl
  | cons c rest ih =>
    obtain ⟨hFirst, hRest⟩ := List.pairwise_cons.mp h
    rw [earliest?, ih hRest]
    cases rest with
    | nil => rfl
    | cons d rest => exact congrArg some (if_pos (hFirst d List.mem_cons_self))

theorem site_reusable_of_le {base : Tree} {changes : List Change} {p : Path}
    (hChanges : ∀ c ∈ changes, p.compare c.path = .lt) {site : Site} (hSite : site ∈ base.sites)
    (hLe : site.path.le p = true) : site ∈ (compute base changes).reusable := by
  rw [mem_reusable_iff]
  refine ⟨hSite, ?_⟩
  intro c hc
  apply Bool.eq_false_iff.mpr
  intro hHit
  -- The change would come before itself.
  have hBefore := Path.lt_of_le_of_lt (le_of_affects hHit) (Path.lt_of_le_of_lt hLe (hChanges c hc))
  rw [Path.compare_self] at hBefore
  cases hBefore

end Plan

theorem Path.eq_append_of_dropLast {p q : Path} (h : q = p.dropLast.dropLast) (hq : q ≠ []) :
    ∃ s t, p = q ++ [s, t] := by
  have hInner : p.dropLast ≠ [] := by
    intro hNil
    rw [hNil] at h
    exact hq h
  have hOuter : p ≠ [] := by
    rintro rfl
    exact hInner rfl
  refine ⟨p.dropLast.getLast hInner, p.getLast hOuter, ?_⟩
  rw [h, List.append_cons, List.dropLast_append_getLast, List.dropLast_append_getLast]

theorem Change.WellFormed.path_of_anchor {base modified : Tree} {c : Change}
    (h : c.WellFormed base modified) {site : Site} (hSite : c.anchor = some site) :
    site ∈ base.sites ∧ ∃ s t, c.path = site.path ++ [s, t] := by
  obtain ⟨hPath, text, thenArm, elseArm, hAt⟩ := h.anchored site hSite
  refine ⟨Tree.mem_sites_of_at? hAt, Path.eq_append_of_dropLast hPath ?_⟩
  obtain ⟨i, rest, hIndex⟩ := Tree.exists_index_of_at? hAt
  rw [hIndex]
  exact List.cons_ne_nil _ _

namespace Plan

/-- The changes are listed from the first one on. A plan resumes from the conditional around the
first change: it comes before every change, and it and all conditionals up to it are reused. A plan
for some changes that does not resume anywhere has its first change at the top of the program. -/
theorem resume_point_safe (base modified : Tree) :
    let changes := Diff.changes base modified
    let plan := compute base changes
    (∀ a, plan.resumeFrom = some a →
      (∃ text thenArm elseArm,
        base.at? a.path = some (.conditional a.line text a.test thenArm elseArm)) ∧
      a ∈ plan.reusable ∧
      (∀ site ∈ base.sites, site.path.le a.path = true → site ∈ plan.reusable) ∧
      (∀ c ∈ changes, a.path.compare c.path = .lt) ∧
      ∃ first rest, changes = first :: rest ∧ (∀ c ∈ rest, first.path.le c.path = true) ∧
        a.path.precedence first.path = .encloses) ∧
    (plan.resumeFrom = none → changes ≠ [] →
      ∃ first rest, changes = first :: rest ∧ (∀ c ∈ rest, first.path.le c.path = true) ∧
        first.path.length = 1) := by
  intro changes plan
  have hSorted : changes.Pairwise fun c d => c.path.le d.path = true :=
    (Diff.ordered_changes base modified).imp Change.Ahead.le
  have hWell : ∀ c ∈ changes, c.WellFormed base modified := Diff.wellFormed_changes base modified
  have hResume : plan.resumeFrom = changes.head?.bind Change.anchor :=
    congrArg (Option.bind · Change.anchor) (earliest?_eq_head? hSorted)
  cases hChanges : changes with
  | nil => simp [hResume, hChanges]
  | cons first rest =>
    have hFirst : ∀ c ∈ rest, first.path.le c.path = true := by
      rw [hChanges] at hSorted
      exact (List.pairwise_cons.mp hSorted).1
    have hWell := hWell first (hChanges ▸ List.mem_cons_self)
    have hAnchor : plan.resumeFrom = first.anchor := by rw [hResume, hChanges]; rfl
    rw [hAnchor]
    constructor
    · intro a ha
      obtain ⟨hSite, s, t, hPath⟩ := hWell.path_of_anchor ha
      have hBefore : a.path.compare first.path = .lt := by
        rw [hPath]
        exact Path.lt_of_encloses (s := s) ⟨[t], by simp [Path.child]⟩
      have hAll : ∀ c ∈ changes, a.path.compare c.path = .lt := by
        intro c hc
        rw [hChanges] at hc
        rcases List.mem_cons.mp hc with rfl | hc
        · exact hBefore
        · exact Path.lt_of_lt_of_le hBefore (hFirst c hc)
      have hReuse : ∀ site ∈ base.sites, site.path.le a.path = true → site ∈ plan.reusable :=
        fun site => site_reusable_of_le hAll
      refine ⟨(hWell.anchored a ha).2, hReuse a hSite (Path.le_refl _), hReuse, hChanges ▸ hAll,
        first, rest, rfl, hFirst, ?_⟩
      have hEncloses := Path.precedence_append a.path [] [s, t]
      rw [List.append_nil] at hEncloses
      rw [hPath, hEncloses]
      rfl
    · intro hNone _
      exact ⟨first, rest, rfl, hFirst, hWell.unanchored.mp hNone⟩

end Plan

end Reanalysis
