import Reanalysis.Diff.Plan
import Reanalysis.Proofs.Execution

/-!
# Reused conditionals are reached alike

A conditional that no change affects has only matched statements before it, at the same indices
and without changes inside. So both versions run alike up to it. The argument follows the list
around the conditional up to its index and then goes on inside the statement at that index.
-/

namespace Reanalysis

universe u

theorem Path.precedence_cons_self (s : Segment) (p q : Path) :
    Path.precedence (s :: p) (s :: q) = Path.precedence p q := by
  cases s <;> simp [Path.precedence]

theorem Path.precedence_append (p q r : Path) :
    Path.precedence (p ++ q) (p ++ r) = Path.precedence q r := by
  induction p with
  | nil => rfl
  | cons s p ih => rw [List.cons_append, List.cons_append, Path.precedence_cons_self, ih]

theorem Path.precedence_index (p q r : Path) (i k : Nat) :
    Path.precedence (p.child (.index i) ++ q) (p.child (.index k) ++ r) =
      if i = k then Path.precedence q r else if i < k then .before else .after := by
  rw [Path.child, Path.child, List.append_assoc, List.append_assoc, Path.precedence_append,
    List.singleton_append, List.singleton_append, Path.precedence]
  simp only [Segment.index.injEq]

theorem Plan.affects_from {p site : Path} {i k : Nat} (hk : i ≤ k)
    (h : p.child (.index k) <+: site) : Plan.affects (p.child (.index i)) site = true := by
  obtain ⟨r, rfl⟩ := h
  have hOrder := Path.precedence_index p [] r i k
  rw [List.append_nil] at hOrder
  rw [Plan.affects, hOrder]
  rcases hk.eq_or_lt with rfl | hk
  · rw [if_pos rfl]
    cases r <;> rfl
  · rw [if_neg (by omega), if_pos hk]

theorem Plan.affects_behind {p site c : Path} {i k : Nat} (hk : i < k)
    (hc : p.child (.index i) <+: c) (h : p.child (.index k) <+: site) :
    Plan.affects c site = true := by
  obtain ⟨q, rfl⟩ := hc
  obtain ⟨r, rfl⟩ := h
  rw [Plan.affects, Path.precedence_index, if_neg (by omega), if_pos hk]

/-! ## Sites and their paths -/

theorem Tree.armSites_eq (path : Path) (arm : Option (List Statement)) :
    Tree.armSites path arm = Tree.sitesFrom path 0 (arm.getD []) := by
  cases arm with
  | none => rfl
  | some arm => rfl

theorem Statement.mem_sites_conditional_iff (p : Path) (line : Nat) (text test : String)
    (thenArm : List Statement) (elseArm : Option (List Statement)) (site : Site) :
    site ∈ Statement.sites p (.conditional line text test thenArm elseArm) ↔
      site = ⟨p, test, line⟩ ∨ site ∈ Tree.sitesFrom (p.child .thenArm) 0 thenArm ∨
        site ∈ Tree.sitesFrom (p.child .elseArm) 0 (elseArm.getD []) := by
  rw [Statement.sites, Tree.armSites_eq, List.mem_cons, List.mem_append]

theorem Tree.mem_sitesFrom_cons_iff (p : Path) (i : Nat) (s : Statement) (rest : List Statement)
    (site : Site) : site ∈ Tree.sitesFrom p i (s :: rest) ↔
      site ∈ s.sites (p.child (.index i)) ∨ site ∈ Tree.sitesFrom p (i + 1) rest := by
  rw [Tree.sitesFrom, List.mem_append]

theorem Tree.sites_addressed {t : List Statement}
    (h : ∀ s ∈ t, ∀ p, ∀ site ∈ s.sites p, ∃ r text thenArm elseArm, site.path = p ++ r ∧
      Statement.at? r s = some (.conditional site.line text site.test thenArm elseArm))
    (p : Path) (i : Nat) : ∀ site ∈ Tree.sitesFrom p i t, ∃ k r text thenArm elseArm,
      site.path = p.child (.index (i + k)) ++ r ∧
      Tree.at? t (.index k :: r) =
        some (.conditional site.line text site.test thenArm elseArm) := by
  induction t generalizing i with
  | nil => simp [Tree.sitesFrom]
  | cons s t ih =>
    intro site hSite
    rcases (Tree.mem_sitesFrom_cons_iff p i s t site).mp hSite with hSite | hSite
    · obtain ⟨r, text, thenArm, elseArm, hPath, hAt⟩ := h s List.mem_cons_self _ site hSite
      exact ⟨0, r, text, thenArm, elseArm, hPath, hAt⟩
    · obtain ⟨k, r, text, thenArm, elseArm, hPath, hAt⟩ :=
        ih (fun s hs => h s (List.mem_cons_of_mem _ hs)) (i + 1) site hSite
      refine ⟨k + 1, r, text, thenArm, elseArm, ?_, hAt⟩
      rw [hPath, Nat.add_right_comm, Nat.add_assoc]

theorem Statement.sites_addressed (s : Statement) (p : Path) :
    ∀ site ∈ s.sites p, ∃ r text thenArm elseArm, site.path = p ++ r ∧
      Statement.at? r s = some (.conditional site.line text site.test thenArm elseArm) := by
  induction s using Statement.induct_arms generalizing p with
  | simple line text => simp [Statement.sites]
  | conditional line text test thenArm elseArm ihThen ihElse =>
    intro site hSite
    rcases (Statement.mem_sites_conditional_iff ..).mp hSite with rfl | hSite | hSite
    · exact ⟨[], text, thenArm, elseArm, (List.append_nil p).symm, rfl⟩
    · obtain ⟨k, r, text', then', else', hPath, hAt⟩ := Tree.sites_addressed ihThen _ 0 site hSite
      refine ⟨.thenArm :: .index k :: r, text', then', else', ?_, hAt⟩
      rw [hPath, Nat.zero_add]
      simp [Path.child]
    · obtain ⟨k, r, text', then', else', hPath, hAt⟩ := Tree.sites_addressed ihElse _ 0 site hSite
      refine ⟨.elseArm :: .index k :: r, text', then', else', ?_, hAt⟩
      rw [hPath, Nat.zero_add]
      simp [Path.child]

theorem Tree.sitesFrom_below {p : Path} {i : Nat} {t : List Statement} {site : Site}
    (h : site ∈ Tree.sitesFrom p i t) : ∃ k, i ≤ k ∧ p.child (.index k) <+: site.path := by
  obtain ⟨k, r, _, _, _, hPath, _⟩ := Tree.sites_addressed (fun s _ => s.sites_addressed) p i site h
  exact ⟨i + k, Nat.le_add_right i k, r, hPath.symm⟩

/-! ## Runs up to an unaffected site -/

/-- Both statements have a conditional with the test of `site` at its path, and runs from one state
arrive there alike. -/
def Statement.SameAt (site : Site) (p : Path) (b m : Statement) : Prop :=
  (∃ line, ⟨site.path, site.test, line⟩ ∈ m.sites p) ∧
    ∀ (σ : Type u) (sem : Meaning σ) (st x : σ),
      (site.path, x) ∈ b.visits sem p st ↔ (site.path, x) ∈ m.visits sem p st

/-- The same for the statements of two lists from one index on. -/
def Tree.SameAt (site : Site) (p : Path) (i : Nat) (bs ms : List Statement) : Prop :=
  (∃ line, ⟨site.path, site.test, line⟩ ∈ Tree.sitesFrom p i ms) ∧
    ∀ (σ : Type u) (sem : Meaning σ) (st x : σ),
      (site.path, x) ∈ Tree.visitsFrom sem p i bs st ↔
        (site.path, x) ∈ Tree.visitsFrom sem p i ms st

theorem Tree.sameAt_here {site : Site} {p : Path} {i : Nat} {b m : Statement}
    {bs ms : List Statement} (hSite : p.child (.index i) <+: site.path)
    (h : Statement.SameAt.{u} site (p.child (.index i)) b m) :
    Tree.SameAt.{u} site p i (b :: bs) (m :: ms) := by
  obtain ⟨⟨line, hLine⟩, hVisits⟩ := h
  refine ⟨⟨line, (Tree.mem_sitesFrom_cons_iff ..).mpr (.inl hLine)⟩, ?_⟩
  intro σ sem st x
  have notLater : ∀ (t : List Statement) (next : σ),
      (site.path, x) ∉ Tree.visitsFrom sem p (i + 1) t next := by
    intro t next hLater
    obtain ⟨k, hk, hBelow⟩ := Tree.visitsFrom_below sem hLater
    cases Path.child_prefix_unique hSite hBelow
    omega
  simp only [Tree.mem_visitsFrom_cons_iff, notLater, and_false, exists_false, or_false]
  exact hVisits σ sem st x

theorem Tree.sameAt_later {site : Site} {p : Path} {i k : Nat} {b m : Statement}
    {bs ms : List Statement} (hk : i < k) (hSite : p.child (.index k) <+: site.path)
    (hFirst : b.Equivalent m) (h : Tree.SameAt.{u} site p (i + 1) bs ms) :
    Tree.SameAt.{u} site p i (b :: bs) (m :: ms) := by
  obtain ⟨⟨line, hLine⟩, hVisits⟩ := h
  refine ⟨⟨line, (Tree.mem_sitesFrom_cons_iff ..).mpr (.inr hLine)⟩, ?_⟩
  intro σ sem st x
  have notFirst : ∀ s : Statement, (site.path, x) ∉ s.visits sem (p.child (.index i)) st := by
    intro s hFirst
    cases Path.child_prefix_unique (s.visits_below sem _ _ _ hFirst) hSite
    omega
  simp only [Tree.mem_visitsFrom_cons_iff, notFirst, false_or, hFirst.run_eq sem, hVisits σ sem]

theorem Statement.mem_visits_self_iff {σ : Type u} (sem : Meaning σ) (s : Statement) (p : Path)
    (st x : σ) : (p, x) ∈ s.visits sem p st ↔ x = st := by
  cases s with
  | simple line text => simp [Statement.visits]
  | conditional line text test thenArm elseArm =>
    have notInside : ∀ (a : Segment) (arm : List Statement),
        (p, x) ∉ Tree.visitsFrom sem (p.child a) 0 arm st := by
      intro a arm hInside
      obtain ⟨k, _, hBelow⟩ := Tree.visitsFrom_below sem hInside
      exact Path.not_child_prefix_self _ _ (Path.prefix_of_child hBelow)
    simp [Statement.mem_visits_conditional_iff, notInside]

theorem Statement.mem_visits_arm_iff {σ : Type u} (sem : Meaning σ) {p r : Path} {a : Segment}
    (hr : p.child a <+: r) (line : Nat) (text test : String) (thenArm : List Statement)
    (elseArm : Option (List Statement)) (st x : σ) :
    (r, x) ∈ Statement.visits sem p (.conditional line text test thenArm elseArm) st ↔
      sem.holds test st = decide (a = .thenArm) ∧ (r, x) ∈ Tree.visitsFrom sem (p.child a) 0
        (Statement.arm a (.conditional line text test thenArm elseArm)) st := by
  have hInside : ∀ {a' : Segment} {arm : List Statement},
      (r, x) ∈ Tree.visitsFrom sem (p.child a') 0 arm st → a = a' := by
    intro a' arm hInside
    obtain ⟨k, _, hBelow⟩ := Tree.visitsFrom_below sem hInside
    exact Path.child_prefix_unique hr (Path.prefix_of_child hBelow)
  rw [Statement.mem_visits_conditional_iff]
  constructor
  · rintro (hSelf | ⟨hTest, hThen⟩ | ⟨hTest, hElse⟩)
    · cases hSelf
      exact absurd hr (Path.not_child_prefix_self _ _)
    · cases hInside hThen
      exact ⟨hTest, hThen⟩
    · cases hInside hElse
      exact ⟨hTest, hElse⟩
  · rintro ⟨hTest, hArm⟩
    cases a with
    | index i => simp [Statement.arm, Tree.visitsFrom] at hArm
    | thenArm => exact .inr (.inl ⟨hTest, hArm⟩)
    | elseArm => exact .inr (.inr ⟨hTest, hArm⟩)

theorem Statement.mem_sites_of_arm {p : Path} {a : Segment} {s : Statement} {site : Site}
    (h : site ∈ Tree.sitesFrom (p.child a) 0 (s.arm a)) : site ∈ s.sites p := by
  cases s with
  | simple line text => cases a <;> simp [Statement.arm, Tree.sitesFrom] at h
  | conditional line text test thenArm elseArm =>
    rw [Statement.mem_sites_conditional_iff]
    cases a with
    | index i => simp [Statement.arm, Tree.sitesFrom] at h
    | thenArm => exact .inr (.inl h)
    | elseArm => exact .inr (.inr h)

theorem Statement.sameAt_arm {site : Site} {p : Path} (a : Segment) {line line' : Nat}
    {text text' test : String} {thenArm thenArm' : List Statement}
    {elseArm elseArm' : Option (List Statement)} (hBelow : p.child a <+: site.path)
    (h : Tree.SameAt.{u} site (p.child a) 0
      (Statement.arm a (.conditional line text test thenArm elseArm))
      (Statement.arm a (.conditional line' text' test thenArm' elseArm'))) :
    Statement.SameAt.{u} site p (.conditional line text test thenArm elseArm)
      (.conditional line' text' test thenArm' elseArm') := by
  obtain ⟨⟨other, hOther⟩, hVisits⟩ := h
  refine ⟨⟨other, Statement.mem_sites_of_arm hOther⟩, ?_⟩
  intro σ sem st x
  rw [Statement.mem_visits_arm_iff sem hBelow, Statement.mem_visits_arm_iff sem hBelow,
    hVisits σ sem st x]

namespace Diff

theorem Aligned.sameAt {here : Place} (hPlace : here.modified = here.base) {site : Site}
    {size i : Nat} {bs ms : List Statement} {es : Edits} (h : Aligned i i bs ms es)
    (hSize : size = i + bs.length) (hClear : Tree.Clear bs ms)
    (hSite : site ∈ Tree.sitesFrom here.base i bs)
    (hSpared : ∀ c ∈ here.collect size es [] [], Plan.affects c.path site.path = false)
    (hInner : ∀ b ∈ bs, ∀ m, b.key = m.key → b.Clear m → ∀ p, site ∈ b.sites p →
      (∀ c ∈ b.changes m p p, Plan.affects c.path site.path = false) →
      Statement.SameAt.{u} site p b m) :
    Tree.SameAt.{u} site here.base i bs ms := by
  induction bs generalizing i ms es with
  | nil => simp [Tree.sitesFrom] at hSite
  | cons b bs ih =>
    obtain ⟨hb, _⟩ | ⟨_, m, _, ms, es, hb, rfl, hKey, hRest, hCollect⟩ | ⟨_, c, hc, hPath⟩ :=
      h.keep_or_change here hSize
    · cases hb
    · cases hb
      rw [hPlace] at hCollect
      have hClearFirst := hClear b List.mem_cons_self m List.mem_cons_self
      have hSparedFirst :
          ∀ c ∈ b.changes m (here.base.child (.index i)) (here.base.child (.index i)),
            Plan.affects c.path site.path = false :=
        fun c hc => hSpared c (hCollect ▸ List.mem_append_left _ hc)
      rcases (Tree.mem_sitesFrom_cons_iff ..).mp hSite with hSite | hSite
      · obtain ⟨r, _, _, _, hPath, _⟩ := b.sites_addressed _ site hSite
        apply Tree.sameAt_here ⟨r, hPath.symm⟩
        exact hInner b List.mem_cons_self m hKey hClearFirst _ hSite hSparedFirst
      · obtain ⟨k, hk, hBelow⟩ := Tree.sitesFrom_below hSite
        -- A change inside the first statement would run before the site.
        have hNone :
            b.changes m (here.base.child (.index i)) (here.base.child (.index i)) = [] := by
          apply List.eq_nil_iff_forall_not_mem.mpr
          intro c hc
          have hHit := Plan.affects_behind hk (within_statement hc).1 hBelow
          rw [hSparedFirst c hc] at hHit
          cases hHit
        have hFirst := hClearFirst.equivalent ((statement_changes_eq_nil_iff b m _ _ hKey).mp hNone)
        apply Tree.sameAt_later hk hBelow hFirst
        apply ih hRest (by simp only [hSize, List.length_cons]; omega)
        · exact fun b hb m hm => hClear b (List.mem_cons_of_mem _ hb) m (List.mem_cons_of_mem _ hm)
        · exact hSite
        · exact fun c hc => hSpared c (hCollect ▸ List.mem_append_right _ hc)
        · exact fun b hb => hInner b (List.mem_cons_of_mem _ hb)
    · obtain ⟨k, hk, hBelow⟩ := Tree.sitesFrom_below hSite
      have hHit := Plan.affects_from hk hBelow
      rw [← hPath, hSpared c hc] at hHit
      cases hHit

theorem Place.sameAt (here : Place) (hPlace : here.modified = here.base) {site : Site}
    {bs ms : List Statement} (hClear : Tree.Clear bs ms)
    (hSite : site ∈ Tree.sitesFrom here.base 0 bs)
    (hSpared : ∀ c ∈ here.changes bs ms, Plan.affects c.path site.path = false)
    (hInner : ∀ b ∈ bs, ∀ m, b.key = m.key → b.Clear m → ∀ p, site ∈ b.sites p →
      (∀ c ∈ b.changes m p p, Plan.affects c.path site.path = false) →
      Statement.SameAt.{u} site p b m) :
    Tree.SameAt.{u} site here.base 0 bs ms := by
  obtain ⟨es, hAligned, hChanges⟩ := here.changes_aligned bs ms
  rw [hChanges] at hSpared
  exact hAligned.sameAt hPlace (Nat.zero_add _).symm hClear hSite hSpared hInner

theorem statement_sameAt (site : Site) (b m : Statement) (hKey : b.key = m.key) (hClear : b.Clear m)
    (p : Path) (hSite : site ∈ b.sites p)
    (hSpared : ∀ c ∈ b.changes m p p, Plan.affects c.path site.path = false) :
    Statement.SameAt.{u} site p b m := by
  induction b using Statement.induct_arms generalizing m p with
  | simple line text => simp [Statement.sites] at hSite
  | conditional line text test thenArm elseArm ihThen ihElse =>
    cases m with
    | simple line' text' =>
      exact absurd ⟨hKey, nofun⟩ hClear.not_sharesKey
    | conditional line' text' test' thenArm' elseArm' =>
      cases hKey
      rw [changes_conditional] at hSpared
      rcases (Statement.mem_sites_conditional_iff ..).mp hSite with rfl | hSite | hSite
      · refine ⟨⟨line', (Statement.mem_sites_conditional_iff ..).mpr (.inl rfl)⟩, ?_⟩
        intro σ sem st x
        rw [Statement.mem_visits_self_iff, Statement.mem_visits_self_iff]
      · obtain ⟨k, _, hBelow⟩ := Tree.sitesFrom_below hSite
        apply Statement.sameAt_arm .thenArm (Path.prefix_of_child hBelow)
        apply (armPlace p p test line .thenArm).sameAt rfl (hClear.arm .thenArm) hSite
        · exact fun c hc => hSpared c (List.mem_append_left _ hc)
        · exact ihThen
      · obtain ⟨k, _, hBelow⟩ := Tree.sitesFrom_below hSite
        apply Statement.sameAt_arm .elseArm (Path.prefix_of_child hBelow)
        apply (armPlace p p test line .elseArm).sameAt rfl (hClear.arm .elseArm) hSite
        · exact fun c hc => hSpared c (List.mem_append_right _ hc)
        · exact ihElse

/-- Where a plan reuses the state of a conditional, the modified program has a conditional with the
same test, and every run of both programs arrives there in the same state or not at all. -/
theorem reusable_reached_alike (base modified : Tree) (h : base.Unambiguous modified) (site : Site)
    (hSite : site ∈ (Plan.compute base (Diff.changes base modified)).reusable) :
    (∃ line text thenArm elseArm,
      modified.at? site.path = some (.conditional line text site.test thenArm elseArm)) ∧
    ∀ (σ : Type u) (sem : Meaning σ) (start : σ),
      base.arrival sem start site.path = modified.arrival sem start site.path := by
  obtain ⟨hSite, hSpared⟩ := List.mem_filter.mp hSite
  have hSpared : ∀ c ∈ Diff.changes base modified, Plan.affects c.path site.path = false := by
    simpa [Plan.isHit] using hSpared
  have hSame : Tree.SameAt.{u} site [] 0 base modified :=
    Place.sameAt ⟨[], [], none⟩ rfl h.clear hSite hSpared fun b _ m hKey hClear p hSite hSpared =>
      statement_sameAt site b m hKey hClear p hSite hSpared
  obtain ⟨⟨line, hLine⟩, hVisits⟩ := hSame
  constructor
  · obtain ⟨k, r, text, thenArm, elseArm, hPath, hAt⟩ :=
      Tree.sites_addressed (fun s _ => s.sites_addressed) [] 0 _ hLine
    refine ⟨line, text, thenArm, elseArm, ?_⟩
    rw [Nat.zero_add] at hPath
    exact hPath ▸ hAt
  · intro σ sem start
    apply Option.ext
    intro x
    rw [Tree.arrival_eq_some_iff, Tree.arrival_eq_some_iff]
    exact hVisits σ sem start x

/-- A conditional that runs `step` in one arm and has another conditional in its other arm. -/
def sampleProgram (step : String) : Tree :=
  [.simple 1 "read ( x ) ;",
   .conditional 2 ("if ( x > 1 ) \x7b " ++ step ++ " \x7d else \x7b if ( x < 0 ) \x7b \x7d \x7d")
     "( x > 1 )"
     [.simple 3 step] (some [.conditional 5 "if ( x < 0 ) { }" "( x < 0 )" [] none])]

/-- A change in one arm leaves the conditionals of the other arm in use. -/
theorem opposite_arm_reached_alike :
    (sampleProgram "log ( 1 ) ;").Unambiguous (sampleProgram "log ( 2 ) ;") ∧
    ⟨[.index 1, .elseArm, .index 0], "( x < 0 )", 5⟩ ∈ (Plan.compute (sampleProgram "log ( 1 ) ;")
      (Diff.changes (sampleProgram "log ( 1 ) ;") (sampleProgram "log ( 2 ) ;"))).reusable ∧
    (∃ line text thenArm elseArm, (sampleProgram "log ( 2 ) ;").at? [.index 1, .elseArm, .index 0] =
      some (.conditional line text "( x < 0 )" thenArm elseArm)) ∧
    ∀ (σ : Type) (sem : Meaning σ) (start : σ),
      (sampleProgram "log ( 1 ) ;").arrival sem start [.index 1, .elseArm, .index 0] =
        (sampleProgram "log ( 2 ) ;").arrival sem start [.index 1, .elseArm, .index 0] :=
  ⟨by decide, by decide, reusable_reached_alike _ _ (by decide)
    ⟨[.index 1, .elseArm, .index 0], "( x < 0 )", 5⟩ (by decide)⟩

end Diff

end Reanalysis
