import Reanalysis.Proofs.Equivalence

/-!
# Running a statement tree

A meaning gives simple statements by their text and conditionals by their test. `visits` lists the
statements that a run arrives at, each with the state it arrives in. No statement is visited twice,
and equivalent statements run alike.
-/

namespace Reanalysis

universe u

structure Meaning (σ : Type u) where
  /-- What a simple statement does; with no result, the run stops there. -/
  act : String → σ → Option σ
  holds : String → σ → Bool

variable {σ : Type u}

mutual

def Statement.run (sem : Meaning σ) : Statement → σ → Option σ
  | .simple _ text, st => sem.act text st
  | .conditional _ _ test thenArm elseArm, st =>
    if sem.holds test st then Tree.run sem thenArm st else Tree.armRun sem elseArm st

/-- The state behind the statements, unless the run stops in one of them. -/
def Tree.run (sem : Meaning σ) : List Statement → σ → Option σ
  | [], st => some st
  | s :: rest, st =>
    match s.run sem st with
    | none => none
    | some next => Tree.run sem rest next

def Tree.armRun (sem : Meaning σ) : Option (List Statement) → σ → Option σ
  | none, st => some st
  | some arm, st => Tree.run sem arm st

end

mutual

def Statement.visits (sem : Meaning σ) (path : Path) : Statement → σ → List (Path × σ)
  | .simple _ _, st => [(path, st)]
  | .conditional _ _ test thenArm elseArm, st =>
    (path, st) ::
      if sem.holds test st then Tree.visitsFrom sem (path.child .thenArm) 0 thenArm st
      else Tree.armVisits sem (path.child .elseArm) elseArm st

/-- The visits of a run through the statements from index `i` on of the list at `path`. -/
def Tree.visitsFrom (sem : Meaning σ) (path : Path) (i : Nat) : List Statement → σ → List (Path × σ)
  | [], _ => []
  | s :: rest, st =>
    s.visits sem (path.child (.index i)) st ++
      match s.run sem st with
      | none => []
      | some next => Tree.visitsFrom sem path (i + 1) rest next

def Tree.armVisits (sem : Meaning σ) (path : Path) : Option (List Statement) → σ → List (Path × σ)
  | none, _ => []
  | some arm, st => Tree.visitsFrom sem path 0 arm st

end

def Tree.visits (sem : Meaning σ) (t : Tree) (start : σ) : List (Path × σ) :=
  Tree.visitsFrom sem [] 0 t start

/-- The state in which a run arrives at a path, if it does. -/
def Tree.arrival (sem : Meaning σ) (t : Tree) (start : σ) (p : Path) : Option σ :=
  ((t.visits sem start).find? (·.1 = p)).map (·.2)

theorem Tree.armRun_eq (sem : Meaning σ) (arm : Option (List Statement)) :
    Tree.armRun sem arm = Tree.run sem (arm.getD []) := by
  funext st
  cases arm with
  | none => rw [Tree.armRun, Option.getD_none, Tree.run]
  | some arm => rw [Tree.armRun, Option.getD_some]

theorem Tree.armVisits_eq (sem : Meaning σ) (path : Path) (arm : Option (List Statement)) :
    Tree.armVisits sem path arm = Tree.visitsFrom sem path 0 (arm.getD []) := by
  funext st
  cases arm with
  | none => rw [Tree.armVisits, Option.getD_none, Tree.visitsFrom]
  | some arm => rw [Tree.armVisits, Option.getD_some]

/-! ## Equivalent statements -/

theorem Tree.run_eq_of_statements (sem : Meaning σ) {bs ms : List Statement}
    (h : List.Forall₂ (fun b m => Statement.run sem b = Statement.run sem m) bs ms) :
    Tree.run sem bs = Tree.run sem ms := by
  induction h with
  | nil => rfl
  | cons hFirst _ ih =>
    funext st
    rw [Tree.run, Tree.run, hFirst, ih]

theorem Statement.Equivalent.run_eq (sem : Meaning σ) {b m : Statement} (h : b.Equivalent m) :
    b.run sem = m.run sem := by
  induction b using Statement.induct_arms generalizing m with
  | simple line text =>
    cases h
    funext st
    rw [Statement.run, Statement.run]
  | conditional line text test thenArm elseArm ihThen ihElse =>
    cases h with
    | conditional _ _ _ _ _ hThen hElse =>
      have runs : ∀ {bs ms : List Statement},
          (∀ b ∈ bs, ∀ {m : Statement}, b.Equivalent m → b.run sem = m.run sem) →
          List.Forall₂ Statement.Equivalent bs ms → Tree.run sem bs = Tree.run sem ms := by
        intro bs ms ih hArms
        apply Tree.run_eq_of_statements
        induction hArms with
        | nil => exact .nil
        | cons hFirst _ ihRest =>
          refine .cons (ih _ List.mem_cons_self hFirst) (ihRest ?_)
          exact fun b hb => ih b (List.mem_cons_of_mem _ hb)
      funext st
      rw [Statement.run, Statement.run, Tree.armRun_eq, Tree.armRun_eq, runs ihThen hThen,
        runs ihElse hElse]

/-! ## Where a run can arrive -/

theorem Statement.mem_visits_conditional_iff (sem : Meaning σ) (p : Path) (line : Nat)
    (text test : String) (thenArm : List Statement) (elseArm : Option (List Statement)) (st : σ)
    (v : Path × σ) :
    v ∈ Statement.visits sem p (.conditional line text test thenArm elseArm) st ↔
      v = (p, st) ∨
      (sem.holds test st = true ∧ v ∈ Tree.visitsFrom sem (p.child .thenArm) 0 thenArm st) ∨
      (sem.holds test st = false ∧
        v ∈ Tree.visitsFrom sem (p.child .elseArm) 0 (elseArm.getD []) st) := by
  rw [Statement.visits, Tree.armVisits_eq, List.mem_cons]
  cases sem.holds test st <;> simp

theorem Tree.mem_visitsFrom_cons_iff (sem : Meaning σ) (p : Path) (i : Nat) (s : Statement)
    (rest : List Statement) (st : σ) (v : Path × σ) :
    v ∈ Tree.visitsFrom sem p i (s :: rest) st ↔
      v ∈ s.visits sem (p.child (.index i)) st ∨
      ∃ next, s.run sem st = some next ∧ v ∈ Tree.visitsFrom sem p (i + 1) rest next := by
  rw [Tree.visitsFrom, List.mem_append]
  cases s.run sem st <;> simp

theorem Tree.below_of_statements (sem : Meaning σ) {t : List Statement}
    (h : ∀ s ∈ t, ∀ p st, ∀ v ∈ Statement.visits sem p s st, p <+: v.1)
    (p : Path) (i : Nat) (st : σ) :
    ∀ v ∈ Tree.visitsFrom sem p i t st, ∃ k, i ≤ k ∧ p.child (.index k) <+: v.1 := by
  induction t generalizing i st with
  | nil => simp [Tree.visitsFrom]
  | cons s t ih =>
    intro v hv
    rcases (Tree.mem_visitsFrom_cons_iff sem p i s t st v).mp hv with hv | ⟨next, _, hv⟩
    · exact ⟨i, le_rfl, h s List.mem_cons_self _ _ v hv⟩
    · obtain ⟨k, hk, hBelow⟩ := ih (fun s hs => h s (List.mem_cons_of_mem _ hs)) (i + 1) next v hv
      exact ⟨k, by omega, hBelow⟩

theorem Statement.visits_below (sem : Meaning σ) (s : Statement) (p : Path) (st : σ) :
    ∀ v ∈ s.visits sem p st, p <+: v.1 := by
  induction s using Statement.induct_arms generalizing p st with
  | simple line text => simp [Statement.visits]
  | conditional line text test thenArm elseArm ihThen ihElse =>
    intro v hv
    rcases (Statement.mem_visits_conditional_iff ..).mp hv with rfl | ⟨_, hv⟩ | ⟨_, hv⟩
    · exact List.prefix_rfl
    · obtain ⟨k, _, hBelow⟩ := Tree.below_of_statements sem ihThen _ _ _ v hv
      exact Path.prefix_of_child (Path.prefix_of_child hBelow)
    · obtain ⟨k, _, hBelow⟩ := Tree.below_of_statements sem ihElse _ _ _ v hv
      exact Path.prefix_of_child (Path.prefix_of_child hBelow)

theorem Tree.visitsFrom_below (sem : Meaning σ) {p : Path} {i : Nat} {t : List Statement} {st : σ}
    {v : Path × σ} (hv : v ∈ Tree.visitsFrom sem p i t st) :
    ∃ k, i ≤ k ∧ p.child (.index k) <+: v.1 :=
  Tree.below_of_statements sem (fun s _ => s.visits_below sem) p i st v hv

theorem Tree.unique_of_statements (sem : Meaning σ) {t : List Statement}
    (h : ∀ s ∈ t, ∀ p st r x y, (r, x) ∈ Statement.visits sem p s st →
      (r, y) ∈ Statement.visits sem p s st → x = y)
    (p : Path) (i : Nat) (st : σ) (r : Path) (x y : σ)
    (hx : (r, x) ∈ Tree.visitsFrom sem p i t st) (hy : (r, y) ∈ Tree.visitsFrom sem p i t st) :
    x = y := by
  induction t generalizing i st with
  | nil => simp [Tree.visitsFrom] at hx
  | cons s t ih =>
    -- What is visited in the first statement and behind it lies below different indices.
    have apart : ∀ {z w : σ} {next : σ}, (r, z) ∈ s.visits sem (p.child (.index i)) st →
        (r, w) ∉ Tree.visitsFrom sem p (i + 1) t next := by
      intro z w next hz hw
      obtain ⟨k, hk, hBelow⟩ := Tree.visitsFrom_below sem hw
      cases Path.child_prefix_unique (s.visits_below sem _ _ _ hz) hBelow
      omega
    rw [Tree.mem_visitsFrom_cons_iff] at hx hy
    rcases hx with hx | ⟨next, hNext, hx⟩ <;> rcases hy with hy | ⟨next', hNext', hy⟩
    · exact h s List.mem_cons_self _ _ r x y hx hy
    · exact absurd hy (apart hx)
    · exact absurd hx (apart hy)
    · cases hNext.symm.trans hNext'
      exact ih (fun s hs => h s (List.mem_cons_of_mem _ hs)) _ _ hx hy

theorem Statement.visits_unique (sem : Meaning σ) (s : Statement) (p : Path) (st : σ) (r : Path)
    (x y : σ) (hx : (r, x) ∈ s.visits sem p st) (hy : (r, y) ∈ s.visits sem p st) : x = y := by
  induction s using Statement.induct_arms generalizing p st r x y with
  | simple line text =>
    simp only [Statement.visits, List.mem_singleton, Prod.mk.injEq] at hx hy
    rw [hx.2, hy.2]
  | conditional line text test thenArm elseArm ihThen ihElse =>
    have apart : ∀ {z w : σ} {a : Segment} {arm : List Statement}, (r, z) = (p, st) →
        (r, w) ∉ Tree.visitsFrom sem (p.child a) 0 arm st := by
      intro z w a arm hz hw
      cases hz
      obtain ⟨k, _, hBelow⟩ := Tree.visitsFrom_below sem hw
      exact Path.not_child_prefix_self _ _ (Path.prefix_of_child hBelow)
    rw [Statement.mem_visits_conditional_iff] at hx hy
    rcases hx with hx | ⟨hTest, hx⟩ | ⟨hTest, hx⟩ <;>
      rcases hy with hy | ⟨hTest', hy⟩ | ⟨hTest', hy⟩
    · cases hx
      cases hy
      rfl
    · exact absurd hy (apart hx)
    · exact absurd hy (apart hx)
    · exact absurd hx (apart hy)
    · exact Tree.unique_of_statements sem ihThen _ _ _ r x y hx hy
    · cases hTest.symm.trans hTest'
    · exact absurd hx (apart hy)
    · cases hTest.symm.trans hTest'
    · exact Tree.unique_of_statements sem ihElse _ _ _ r x y hx hy

theorem Tree.arrival_eq_some_iff (sem : Meaning σ) (t : Tree) (start : σ) (p : Path) (st : σ) :
    t.arrival sem start p = some st ↔ (p, st) ∈ t.visits sem start := by
  constructor
  · intro h
    obtain ⟨⟨r, x⟩, hFind, rfl⟩ := Option.map_eq_some_iff.mp h
    have hr : r = p := by simpa using List.find?_some hFind
    exact hr ▸ List.mem_of_find?_eq_some hFind
  · intro h
    have hFind : ((t.visits sem start).find? (·.1 = p)).isSome := by
      rw [List.find?_isSome]
      exact ⟨(p, st), h, by simp⟩
    obtain ⟨⟨r, x⟩, hFind⟩ := Option.isSome_iff_exists.mp hFind
    have hr : r = p := by simpa using List.find?_some hFind
    subst hr
    have hx : x = st := Tree.unique_of_statements sem (fun s _ => s.visits_unique sem) [] 0 start
      r x st (List.mem_of_find?_eq_some hFind) h
    rw [Tree.arrival, hFind, hx]
    rfl

end Reanalysis
