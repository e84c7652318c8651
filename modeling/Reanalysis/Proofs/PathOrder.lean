import Reanalysis.Proofs.Address

/-!
# The order of the document

Paths are compared segment by segment, so their comparison is a total order. Two paths that part
are in the order of the segments at which they part, whatever follows.
-/

namespace Reanalysis

namespace Segment

def rank : Segment → Nat
  | .index _ => 0
  | .thenArm => 1
  | .elseArm => 2

def ordinal : Segment → Nat
  | .index i => i
  | .thenArm | .elseArm => 0

theorem compare_eq_compareLex :
    Segment.compare = compareLex (compareOn rank) (compareOn ordinal) := by
  funext s t
  cases s <;> cases t <;> rfl

instance : Std.TransCmp Segment.compare := by
  rw [compare_eq_compareLex]
  infer_instance

end Segment

namespace Path

theorem compare_eq_compareLex : Path.compare = List.compareLex Segment.compare := by
  funext p q
  induction p generalizing q with
  | nil => cases q <;> rfl
  | cons s p ih =>
    cases q with
    | nil => rfl
    | cons t q => rw [Path.compare, List.compareLex_cons_cons, ih]

instance : Std.TransCmp Path.compare := by
  rw [compare_eq_compareLex]
  infer_instance

theorem le_iff (p q : Path) : p.le q = true ↔ (p.compare q).isLE = true := by
  rw [Path.le, decide_eq_true_iff]
  cases p.compare q <;> simp

theorem compare_self (p : Path) : p.compare p = .eq := Std.ReflCmp.compare_self

theorem le_of_lt {p q : Path} (h : p.compare q = .lt) : p.le q = true := by
  rw [le_iff, h]
  rfl

theorem le_refl (p : Path) : p.le p = true := by
  rw [le_iff, compare_self]
  rfl

theorem lt_of_le_of_lt {p q r : Path} (hpq : p.le q = true) (hqr : q.compare r = .lt) :
    p.compare r = .lt :=
  Std.TransCmp.lt_of_isLE_of_lt ((le_iff p q).mp hpq) hqr

theorem lt_of_lt_of_le {p q r : Path} (hpq : p.compare q = .lt) (hqr : q.le r = true) :
    p.compare r = .lt :=
  Std.TransCmp.lt_of_lt_of_isLE hpq ((le_iff q r).mp hqr)

theorem compare_append (p q r : Path) : Path.compare (p ++ q) (p ++ r) = Path.compare q r := by
  induction p with
  | nil => rfl
  | cons s p ih =>
    have hHead : s.compare s = .eq := Std.ReflCmp.compare_self
    rw [List.cons_append, List.cons_append, Path.compare, hHead]
    exact ih

theorem lt_of_children {p x y : Path} {s t : Segment} (h : s.compare t = .lt)
    (hx : p.child s <+: x) (hy : p.child t <+: y) : x.compare y = .lt := by
  obtain ⟨x, rfl⟩ := hx
  obtain ⟨y, rfl⟩ := hy
  rw [Path.child, Path.child, List.append_assoc, List.append_assoc, compare_append,
    List.singleton_append, List.singleton_append, Path.compare, h]
  rfl

theorem lt_of_indices {p x y : Path} {i j : Nat} (h : i < j) (hx : p.child (.index i) <+: x)
    (hy : p.child (.index j) <+: y) : x.compare y = .lt :=
  lt_of_children (show (Segment.index i).compare (.index j) = .lt from Nat.compare_eq_lt.mpr h)
    hx hy

theorem lt_of_encloses {p q : Path} {s : Segment} (h : p.child s <+: q) :
    p.compare q = .lt := by
  obtain ⟨q, rfl⟩ := h
  have hAppend := compare_append p [] ([s] ++ q)
  rwa [List.append_nil, ← List.append_assoc] at hAppend

end Path

end Reanalysis
