import Reanalysis.Proofs.Reuse

/-!
# What runs before a reused conditional

A change that runs before a statement, stands in its place or encloses it does so too with all that
the statement runs before or encloses. So a plan that reuses the state of a conditional reuses that
of every conditional on the way to it.
-/

namespace Reanalysis

namespace Plan

theorem affects_iff (p q : Path) : affects p q = true ↔
    p.precedence q = .before ∨ p.precedence q = .same ∨ p.precedence q = .encloses := by
  rw [affects]
  cases p.precedence q <;> simp

@[simp] theorem affects_nil (q : Path) : affects [] q = true := by
  cases q <;> rfl

@[simp] theorem affects_cons_nil (s : Segment) (p : Path) : affects (s :: p) [] = false := rfl

theorem affects_cons_iff (s t : Segment) (p q : Path) : affects (s :: p) (t :: q) = true ↔
    (s = t ∧ affects p q = true) ∨ ∃ i j, s = .index i ∧ t = .index j ∧ i < j := by
  by_cases h : s = t
  · subst h
    rw [affects, Path.precedence_cons_self, ← affects]
    constructor
    · intro hRest
      exact .inl ⟨rfl, hRest⟩
    · rintro (⟨_, hRest⟩ | ⟨i, j, hs, ht, hLess⟩)
      · exact hRest
      · cases hs
        cases ht
        omega
  · cases s with
    | index i =>
      cases t with
      | index j =>
        have hIndices : i ≠ j := fun hij => h (congrArg Segment.index hij)
        have hOrder := Path.precedence_index [] p q i j
        rw [if_neg hIndices] at hOrder
        change Path.precedence (.index i :: p) (.index j :: q) = _ at hOrder
        rw [affects, hOrder]
        by_cases hLess : i < j <;> simp [hLess, hIndices]
      | thenArm => simp [affects, Path.precedence]
      | elseArm => simp [affects, Path.precedence]
    | thenArm => cases t <;> simp_all [affects, Path.precedence]
    | elseArm => cases t <;> simp_all [affects, Path.precedence]

/-- The paths follow each other down to where one of the two pairs parts. What parts first decides,
and where both part at once the indices do. -/
theorem affects_trans {p q r : Path} (hpq : affects p q = true) (hqr : affects q r = true) :
    affects p r = true := by
  induction p generalizing q r with
  | nil => exact affects_nil r
  | cons s p ih =>
    cases q with
    | nil => cases hpq
    | cons t q =>
      cases r with
      | nil => cases hqr
      | cons u r =>
        rw [affects_cons_iff] at hpq hqr ⊢
        rcases hpq with ⟨rfl, hpq⟩ | ⟨i, j, rfl, rfl, hij⟩
        · rcases hqr with ⟨rfl, hqr⟩ | hParts
          · exact .inl ⟨rfl, ih hpq hqr⟩
          · exact .inr hParts
        · rcases hqr with ⟨rfl, _⟩ | ⟨j', k, hj, rfl, hjk⟩
          · exact .inr ⟨i, j, rfl, rfl, hij⟩
          · cases hj
            exact .inr ⟨i, k, rfl, rfl, by omega⟩

theorem mem_reusable_iff (base : Tree) (changes : List Change) (site : Site) :
    site ∈ (compute base changes).reusable ↔
      site ∈ base.sites ∧ ∀ c ∈ changes, affects c.path site.path = false := by
  simp [compute, isHit, List.mem_filter]

end Plan

/-! ## Every conditional is a site -/

theorem Tree.mem_sitesFrom_of_getElem? {t : List Statement} {k : Nat} {s : Statement}
    (hs : t[k]? = some s) {p : Path} {i : Nat} {site : Site}
    (h : site ∈ s.sites (p.child (.index (i + k)))) : site ∈ Tree.sitesFrom p i t := by
  induction t generalizing i k with
  | nil => cases hs
  | cons first rest ih =>
    rw [Tree.mem_sitesFrom_cons_iff]
    cases k with
    | zero =>
      cases hs
      exact .inl h
    | succ k =>
      refine .inr (ih hs ?_)
      rwa [Nat.add_right_comm, Nat.add_assoc]

theorem Statement.mem_sites_of_at? {s : Statement} {r : Path} {line : Nat} {text test : String}
    {thenArm : List Statement} {elseArm : Option (List Statement)}
    (h : Statement.at? r s = some (.conditional line text test thenArm elseArm)) (p : Path) :
    ⟨p ++ r, test, line⟩ ∈ s.sites p := by
  induction s using Statement.induct_arms generalizing p r with
  | simple line' text' =>
    cases r with
    | nil => cases h
    | cons a r =>
      rw [Statement.at?_cons] at h
      obtain ⟨i, rest, rfl⟩ := Tree.exists_index_of_at? h
      cases a <;> simp [Statement.arm, Tree.at?] at h
  | conditional line' text' test' then' else' ihThen ihElse =>
    cases r with
    | nil =>
      cases h
      rw [List.append_nil, Statement.mem_sites_conditional_iff]
      exact .inl rfl
    | cons a r =>
      rw [Statement.at?_cons] at h
      obtain ⟨k, rest, rfl⟩ := Tree.exists_index_of_at? h
      obtain ⟨inner, hInner, hAt⟩ := Option.bind_eq_some_iff.mp h
      have hPath : p ++ a :: .index k :: rest = (p.child a).child (.index (0 + k)) ++ rest := by
        simp [Path.child]
      rw [hPath]
      apply Statement.mem_sites_of_arm
      apply Tree.mem_sitesFrom_of_getElem? hInner
      cases a with
      | index i => simp [Statement.arm] at hInner
      | thenArm => exact ihThen inner (List.mem_of_getElem? hInner) hAt _
      | elseArm => exact ihElse inner (List.mem_of_getElem? hInner) hAt _

theorem Tree.mem_sites_of_at? {t : Tree} {p : Path} {line : Nat} {text test : String}
    {thenArm : List Statement} {elseArm : Option (List Statement)}
    (h : t.at? p = some (.conditional line text test thenArm elseArm)) :
    ⟨p, test, line⟩ ∈ t.sites := by
  obtain ⟨k, rest, rfl⟩ := Tree.exists_index_of_at? h
  obtain ⟨s, hs, hAt⟩ := Option.bind_eq_some_iff.mp h
  apply Tree.mem_sitesFrom_of_getElem? hs
  rw [Nat.zero_add]
  exact Statement.mem_sites_of_at? hAt _

namespace Plan

/-- When the state of a conditional is reused, so is that of every conditional of the program that
runs before it or encloses it, whatever the changes are. -/
theorem reusable_of_leads_to_reusable (base : Tree) (changes : List Change) {site : Site}
    (hSite : site ∈ (compute base changes).reusable) {p : Path} {line : Nat} {text test : String}
    {thenArm : List Statement} {elseArm : Option (List Statement)}
    (hAt : base.at? p = some (.conditional line text test thenArm elseArm))
    (hLeads : p.precedence site.path = .before ∨ p.precedence site.path = .encloses) :
    ⟨p, test, line⟩ ∈ (compute base changes).reusable := by
  rw [mem_reusable_iff] at hSite ⊢
  refine ⟨Tree.mem_sites_of_at? hAt, ?_⟩
  have hLeads : affects p site.path = true := by
    rw [affects_iff]
    rcases hLeads with hLeads | hLeads
    · exact .inl hLeads
    · exact .inr (.inr hLeads)
  -- A change that affected the one would affect the other.
  intro c hc
  apply Bool.eq_false_iff.mpr
  intro hHit
  have hHit := affects_trans hHit hLeads
  rw [hSite.2 c hc] at hHit
  cases hHit

/-- The conditional behind the change is lost; the one around the reused conditional and the one
before it are kept. -/
theorem enclosing_conditional_reusable :
    let base : Tree := [.conditional 1 "if ( a ) { }" "( a )" [] none,
      .conditional 2 "if ( b ) \x7b if ( c ) { } \x7d" "( b )"
        [.conditional 3 "if ( c ) { }" "( c )" [] none] none,
      .simple 4 "end ( ) ;", .conditional 5 "if ( d ) { }" "( d )" [] none]
    let changes : List Change := [⟨.removed, [.index 2], none, some 4, none, some "end ( ) ;", none,
      none⟩]
    (⟨[.index 1, .thenArm, .index 0], "( c )", 3⟩ ∈ (compute base changes).reusable ∧
      ⟨[.index 3], "( d )", 5⟩ ∉ (compute base changes).reusable) ∧
    ⟨[.index 1], "( b )", 2⟩ ∈ (compute base changes).reusable ∧
      ⟨[.index 0], "( a )", 1⟩ ∈ (compute base changes).reusable := by
  intro base changes
  have hInner : ⟨[.index 1, .thenArm, .index 0], "( c )", 3⟩ ∈ (compute base changes).reusable := by
    decide
  refine ⟨⟨hInner, by decide⟩, ?_, ?_⟩
  · exact reusable_of_leads_to_reusable base changes hInner (p := [.index 1]) rfl (.inr rfl)
  · exact reusable_of_leads_to_reusable base changes hInner (p := [.index 0]) rfl (.inl rfl)

end Plan

end Reanalysis
