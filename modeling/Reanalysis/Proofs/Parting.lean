import Reanalysis.Proofs.PathOrder
import Reanalysis.Proofs.Precedence

/-!
# Where two paths part

Two paths go the same way for a while, and then one of them ends or they part. `Lies` says how the
two lie to each other by the place where that happens. `precedence` finds that place from the front,
and the order of the document agrees with it.
-/

namespace Reanalysis

/-- How the second of two statements lies to the first. -/
def Precedence.converse : Precedence → Precedence
  | .before => .after
  | .after => .before
  | .encloses => .inside
  | .inside => .encloses
  | .exclusive => .exclusive
  | .same => .same

def Segment.IsArm : Segment → Prop
  | .index _ => False
  | .thenArm | .elseArm => True

theorem Segment.not_isArm_iff {s : Segment} : ¬ s.IsArm ↔ ∃ i, s = .index i := by
  cases s <;> simp [Segment.IsArm]

namespace Path

/-- One path ends where the other goes on, or the two part behind a common stem. -/
inductive Lies : Path → Path → Precedence → Prop
  | same (p : Path) : Lies p p .same
  | encloses {p q : Path} (s : Segment) (h : p.child s <+: q) : Lies p q .encloses
  | inside {p q : Path} (s : Segment) (h : q.child s <+: p) : Lies p q .inside
  | before {p q stem : Path} {i j : Nat} (hLess : i < j) (hp : stem.child (.index i) <+: p)
      (hq : stem.child (.index j) <+: q) : Lies p q .before
  | after {p q stem : Path} {i j : Nat} (hLess : j < i) (hp : stem.child (.index i) <+: p)
      (hq : stem.child (.index j) <+: q) : Lies p q .after
  | exclusive {p q stem : Path} {s t : Segment} (hArm : s.IsArm ∨ t.IsArm) (hNe : s ≠ t)
      (hp : stem.child s <+: p) (hq : stem.child t <+: q) : Lies p q .exclusive

theorem child_cons_prefix_cons {stem p : Path} {s : Segment} (a : Segment)
    (h : stem.child s <+: p) : Path.child (a :: stem) s <+: a :: p :=
  List.cons_prefix_cons.mpr ⟨rfl, h⟩

theorem Lies.cons {p q : Path} {r : Precedence} (a : Segment) (h : Lies p q r) :
    Lies (a :: p) (a :: q) r := by
  cases h with
  | same => exact .same _
  | encloses s h => exact .encloses s (child_cons_prefix_cons a h)
  | inside s h => exact .inside s (child_cons_prefix_cons a h)
  | before hLess hp hq =>
    exact .before hLess (child_cons_prefix_cons a hp) (child_cons_prefix_cons a hq)
  | after hLess hp hq =>
    exact .after hLess (child_cons_prefix_cons a hp) (child_cons_prefix_cons a hq)
  | exclusive hArm hNe hp hq =>
    exact .exclusive hArm hNe (child_cons_prefix_cons a hp) (child_cons_prefix_cons a hq)

theorem exists_lies_of_ne {s t : Segment} (h : s ≠ t) (p q : Path) :
    ∃ r, Lies (s :: p) (t :: q) r := by
  have hp : Path.child [] s <+: s :: p := List.prefix_append [s] p
  have hq : Path.child [] t <+: t :: q := List.prefix_append [t] q
  by_cases hArm : s.IsArm ∨ t.IsArm
  · exact ⟨.exclusive, .exclusive hArm h hp hq⟩
  · rw [not_or, Segment.not_isArm_iff, Segment.not_isArm_iff] at hArm
    obtain ⟨⟨i, rfl⟩, j, rfl⟩ := hArm
    have hIndices : i ≠ j := fun hij => h (congrArg Segment.index hij)
    rcases Nat.lt_or_gt_of_ne hIndices with hLess | hLess
    · exact ⟨.before, .before hLess hp hq⟩
    · exact ⟨.after, .after hLess hp hq⟩

theorem exists_lies (p q : Path) : ∃ r, Lies p q r := by
  induction p generalizing q with
  | nil =>
    cases q with
    | nil => exact ⟨.same, .same []⟩
    | cons t q => exact ⟨.encloses, .encloses t (List.prefix_append [t] q)⟩
  | cons s p ih =>
    cases q with
    | nil => exact ⟨.inside, .inside s (List.prefix_append [s] p)⟩
    | cons t q =>
      by_cases h : s = t
      · subst h
        obtain ⟨r, hr⟩ := ih q
        exact ⟨r, hr.cons s⟩
      · exact exists_lies_of_ne h p q

theorem precedence_cons_of_arm {s t : Segment} (hArm : s.IsArm ∨ t.IsArm) (hNe : s ≠ t)
    (p q : Path) : Path.precedence (s :: p) (t :: q) = .exclusive := by
  rw [precedence, if_neg hNe]
  rintro i j rfl rfl
  exact hArm.elim id id

theorem precedence_of_arm {stem p q : Path} {s t : Segment} (hArm : s.IsArm ∨ t.IsArm)
    (hNe : s ≠ t) (hp : stem.child s <+: p) (hq : stem.child t <+: q) :
    p.precedence q = .exclusive := by
  obtain ⟨p, rfl⟩ := hp
  obtain ⟨q, rfl⟩ := hq
  rw [child, child, List.append_assoc, List.append_assoc, precedence_append]
  exact precedence_cons_of_arm hArm hNe p q

theorem Lies.precedence_eq {p q : Path} {r : Precedence} (h : Lies p q r) :
    p.precedence q = r := by
  cases h with
  | same =>
    have hSame := precedence_append p [] []
    rwa [List.append_nil] at hSame
  | encloses s h =>
    obtain ⟨rest, rfl⟩ := h
    have hEncloses := precedence_append p [] (s :: rest)
    rwa [List.append_nil, List.append_cons] at hEncloses
  | inside s h =>
    obtain ⟨rest, rfl⟩ := h
    have hInside := precedence_append q (s :: rest) []
    rwa [List.append_nil, List.append_cons] at hInside
  | before hLess hp hq =>
    obtain ⟨p, rfl⟩ := hp
    obtain ⟨q, rfl⟩ := hq
    rw [precedence_index, if_neg (by omega), if_pos hLess]
  | after hLess hp hq =>
    obtain ⟨p, rfl⟩ := hp
    obtain ⟨q, rfl⟩ := hq
    rw [precedence_index, if_neg (by omega), if_neg (by omega)]
  | exclusive hArm hNe hp hq => exact precedence_of_arm hArm hNe hp hq

theorem lies_precedence (p q : Path) : Lies p q (p.precedence q) := by
  obtain ⟨r, h⟩ := exists_lies p q
  rw [h.precedence_eq]
  exact h

theorem lies_iff {p q : Path} {r : Precedence} : Lies p q r ↔ p.precedence q = r := by
  constructor
  · exact Lies.precedence_eq
  · rintro rfl
    exact lies_precedence p q

theorem Lies.symm {p q : Path} {r : Precedence} (h : Lies p q r) : Lies q p r.converse := by
  cases h with
  | same => exact .same p
  | encloses s h => exact .inside s h
  | inside s h => exact .encloses s h
  | before hLess hp hq => exact .after hLess hq hp
  | after hLess hp hq => exact .before hLess hq hp
  | exclusive hArm hNe hp hq => exact .exclusive hArm.symm hNe.symm hq hp

theorem precedence_swap (p q : Path) : q.precedence p = (p.precedence q).converse :=
  (lies_precedence p q).symm.precedence_eq

theorem precedence_eq_same_iff {p q : Path} : p.precedence q = .same ↔ p = q := by
  rw [← lies_iff]
  constructor
  · intro h
    cases h
    rfl
  · rintro rfl
    exact .same p

theorem exists_child_prefix_iff {p q : Path} :
    (∃ s, p.child s <+: q) ↔ p.isPrefixOf q = true ∧ p ≠ q := by
  rw [isPrefixOf, List.isPrefixOf_iff_prefix]
  constructor
  · rintro ⟨s, h⟩
    refine ⟨prefix_of_child h, ?_⟩
    rintro rfl
    exact not_child_prefix_self p s h
  · rintro ⟨⟨rest, rfl⟩, hNe⟩
    cases rest with
    | nil => exact absurd (List.append_nil p).symm hNe
    | cons s rest => exact ⟨s, rest, (List.append_cons p s rest).symm⟩

theorem precedence_eq_encloses_iff {p q : Path} :
    p.precedence q = .encloses ↔ p.isPrefixOf q = true ∧ p ≠ q := by
  rw [← lies_iff, ← exists_child_prefix_iff]
  constructor
  · intro h
    cases h with
    | encloses s h => exact ⟨s, h⟩
  · rintro ⟨s, h⟩
    exact .encloses s h

theorem lt_of_before_or_encloses {p q : Path}
    (h : p.precedence q = .before ∨ p.precedence q = .encloses) : p.compare q = .lt := by
  rcases h with h | h
  · cases lies_iff.mpr h with
    | before hLess hp hq => exact lt_of_indices hLess hp hq
  · cases lies_iff.mpr h with
    | encloses s h => exact lt_of_encloses h

theorem before_append {p q : Path} (h : p.precedence q = .before) (x y : Path) :
    Path.precedence (p ++ x) (q ++ y) = .before := by
  cases lies_iff.mpr h with
  | before hLess hp hq =>
    have hLies : Lies (p ++ x) (q ++ y) .before :=
      .before hLess (hp.trans (List.prefix_append p x)) (hq.trans (List.prefix_append q y))
    exact hLies.precedence_eq

theorem exclusive_append {p q : Path} (h : p.precedence q = .exclusive) (x y : Path) :
    Path.precedence (p ++ x) (q ++ y) = .exclusive := by
  cases lies_iff.mpr h with
  | exclusive hArm hNe hp hq =>
    exact precedence_of_arm hArm hNe (hp.trans (List.prefix_append p x))
      (hq.trans (List.prefix_append q y))

theorem before_trans {p q r : Path} (hpq : p.precedence q = .before)
    (hqr : q.precedence r = .before) : p.precedence r = .before := by
  have hLeads : Plan.affects p r = true :=
    Plan.affects_trans ((Plan.affects_iff p q).mpr (.inl hpq)) ((Plan.affects_iff q r).mpr (.inl hqr))
  -- Below `p`, the path `r` would run before `q` as well.
  have hPrefix : ¬ p <+: r := by
    rintro ⟨x, rfl⟩
    have hBack := before_append hpq x []
    rw [List.append_nil, precedence_swap, hqr] at hBack
    cases hBack
  rcases (Plan.affects_iff p r).mp hLeads with hBefore | hSame | hEncloses
  · exact hBefore
  · exact absurd (precedence_eq_same_iff.mp hSame ▸ List.prefix_refl p) hPrefix
  · have hWithin := (precedence_eq_encloses_iff.mp hEncloses).1
    exact absurd (List.isPrefixOf_iff_prefix.mp hWithin) hPrefix

/-- How two paths lie to each other turns round with them and agrees with equality, with the prefix
test and with the order of the document. It carries over to a third path and to all that lies
below. -/
theorem precedence_coherent (p q r : Path) :
    q.precedence p = (p.precedence q).converse ∧
    (p.precedence q = .same ↔ p = q) ∧
    (p.precedence q = .encloses ↔ p.isPrefixOf q = true ∧ p ≠ q) ∧
    (p.precedence q = .before ∨ p.precedence q = .encloses → p.compare q = .lt) ∧
    (p.precedence q = .before → q.precedence r = .before → p.precedence r = .before) ∧
    ∀ x y : Path,
      (p.precedence q = .before → Path.precedence (p ++ x) (q ++ y) = .before) ∧
      (p.precedence q = .exclusive → Path.precedence (p ++ x) (q ++ y) = .exclusive) := by
  refine ⟨precedence_swap p q, precedence_eq_same_iff, precedence_eq_encloses_iff,
    lt_of_before_or_encloses, before_trans, ?_⟩
  intro x y
  constructor
  · intro h
    exact before_append h x y
  · intro h
    exact exclusive_append h x y

/-- Two statements of one arm, with what is inside them, before one behind the conditional; and the
two arms of that conditional. -/
theorem statements_of_arms_coherent :
    let first : Path := [.index 2, .thenArm, .index 0]
    let second : Path := [.index 2, .thenArm, .index 4]
    let other : Path := [.index 2, .elseArm]
    (first.precedence second = .before ∧ second.precedence [.index 5] = .before ∧
      first.precedence other = .exclusive) ∧
    first.precedence [.index 5] = .before ∧ first.compare second = .lt ∧
      Path.precedence (first ++ [.elseArm]) (second ++ [.thenArm]) = .before ∧
      Path.precedence (first ++ [.elseArm]) (other ++ [.index 0]) = .exclusive := by
  intro first second other
  have hFirst : first.precedence second = .before := rfl
  have hSecond : second.precedence [.index 5] = .before := rfl
  have hOther : first.precedence other = .exclusive := rfl
  obtain ⟨-, -, -, hOrder, hTrans, hBelow⟩ := precedence_coherent first second [.index 5]
  obtain ⟨-, -, -, -, -, hArms⟩ := precedence_coherent first other []
  exact ⟨⟨hFirst, hSecond, hOther⟩, hTrans hFirst hSecond, hOrder (.inl hFirst),
    (hBelow [.elseArm] [.thenArm]).1 hFirst, (hArms [.elseArm] [.index 0]).2 hOther⟩

end Path

end Reanalysis
