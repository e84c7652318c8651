import Reanalysis.Tree.Statement

/-!
# Statements and their paths

The statement that a path addresses, and the statements of a program at any depth. A missing
alternative is an empty arm here.
-/

namespace Reanalysis

/-- Induction on statements, with the arms as lists of smaller statements. -/
theorem Statement.induct_arms {P : Statement → Prop} (simple : ∀ line text, P (.simple line text))
    (conditional : ∀ line text test thenArm elseArm, (∀ s ∈ thenArm, P s) →
      (∀ s ∈ elseArm.getD [], P s) → P (.conditional line text test thenArm elseArm))
    (s : Statement) : P s := by
  refine @Statement.rec P (fun arm => ∀ s ∈ arm, P s) (fun arm => ∀ s ∈ arm.getD [], P s)
    simple conditional ?_ ?_ ?_ ?_ s
  · simp
  · intro head tail hHead hTail s hs
    rcases List.mem_cons.mp hs with rfl | hs
    · exact hHead
    · exact hTail s hs
  · simp
  · intro arm hArm
    exact hArm

theorem Path.child_prefix_iff (p r : Path) (s t : Segment) :
    p.child s <+: p.child t ++ r ↔ s = t := by
  rw [Path.child, Path.child, List.append_assoc, List.prefix_append_right_inj]
  simp

theorem Path.child_prefix_unique {p r : Path} {s t : Segment} (hs : p.child s <+: r)
    (ht : p.child t <+: r) : s = t := by
  obtain ⟨rest, rfl⟩ := ht
  exact (Path.child_prefix_iff p rest s t).mp hs

theorem Path.prefix_of_child {p r : Path} {s : Segment} (h : p.child s <+: r) : p <+: r :=
  (List.prefix_append p [s]).trans h

theorem Path.not_child_prefix_self (p : Path) (s : Segment) : ¬ p.child s <+: p := by
  intro h
  have hLength := h.length_le
  simp only [Path.child, List.length_append, List.length_singleton] at hLength
  omega

namespace Statement

def arm : Segment → Statement → List Statement
  | .thenArm, .conditional _ _ _ thenArm _ => thenArm
  | .elseArm, .conditional _ _ _ _ elseArm => elseArm.getD []
  | _, _ => []

def at? : Path → Statement → Option Statement
  | [], s => some s
  | a :: .index i :: rest, s => (s.arm a)[i]?.bind (at? rest)
  | _, _ => none

end Statement

def Tree.at? (t : Tree) : Path → Option Statement
  | .index i :: rest => t[i]?.bind (Statement.at? rest)
  | _ => none

@[simp] theorem Statement.at?_nil (s : Statement) : Statement.at? [] s = some s := rfl

@[simp] theorem Statement.at?_cons (a : Segment) (p : Path) (s : Statement) :
    Statement.at? (a :: p) s = Tree.at? (s.arm a) p := by
  cases p with
  | nil => rfl
  | cons t p => cases t <;> rfl

@[simp] theorem Tree.at?_index_zero (s : Statement) (t : List Statement) (p : Path) :
    Tree.at? (s :: t) (.index 0 :: p) = Statement.at? p s := rfl

@[simp] theorem Tree.at?_index_succ (s : Statement) (t : List Statement) (i : Nat) (p : Path) :
    Tree.at? (s :: t) (.index (i + 1) :: p) = Tree.at? t (.index i :: p) := rfl

theorem Tree.exists_index_of_at? {t : Tree} {p : Path} {x : Statement} (h : t.at? p = some x) :
    ∃ i rest, p = .index i :: rest := by
  cases p with
  | nil => cases h
  | cons a p => cases a with
    | index i => exact ⟨i, p, rfl⟩
    | thenArm => cases h
    | elseArm => cases h

mutual

def Statement.statements : Statement → List Statement
  | .simple line text => [.simple line text]
  | .conditional line text test thenArm elseArm =>
    .conditional line text test thenArm elseArm ::
      (Tree.statements thenArm ++ Tree.armStatements elseArm)

/-- The statements at any depth, in the order of the document. -/
def Tree.statements : List Statement → List Statement
  | [] => []
  | s :: rest => s.statements ++ Tree.statements rest

def Tree.armStatements : Option (List Statement) → List Statement
  | none => []
  | some arm => Tree.statements arm

end

theorem Tree.armStatements_eq (arm : Option (List Statement)) :
    Tree.armStatements arm = Tree.statements (arm.getD []) := by
  cases arm with
  | none => rfl
  | some arm => rfl

theorem Statement.self_mem_statements (s : Statement) : s ∈ s.statements := by
  cases s <;> simp [Statement.statements]

theorem Tree.mem_statements_of_mem {t : List Statement} {s x : Statement} (hs : s ∈ t)
    (hx : x ∈ s.statements) : x ∈ Tree.statements t := by
  induction t with
  | nil => cases hs
  | cons head t ih =>
    rw [Tree.statements, List.mem_append]
    rcases List.mem_cons.mp hs with rfl | hs
    · exact .inl hx
    · exact .inr (ih hs)

theorem Statement.mem_statements_of_mem_arm {s x : Statement} {a : Segment}
    (h : x ∈ Tree.statements (s.arm a)) : x ∈ s.statements := by
  cases s with
  | simple line text => cases a <;> simp [Statement.arm, Tree.statements] at h
  | conditional line text test thenArm elseArm =>
    rw [Statement.statements, Tree.armStatements_eq]
    cases a with
    | index i => simp [Statement.arm, Tree.statements] at h
    | thenArm => exact List.mem_cons_of_mem _ (List.mem_append_left _ h)
    | elseArm => exact List.mem_cons_of_mem _ (List.mem_append_right _ h)

theorem Statement.mem_statements_of_at? {p : Path} {s x : Statement}
    (h : Statement.at? p s = some x) : x ∈ s.statements := by
  match p with
  | [] =>
    cases h
    exact s.self_mem_statements
  | a :: p =>
    rw [Statement.at?_cons] at h
    obtain ⟨i, rest, rfl⟩ := Tree.exists_index_of_at? h
    obtain ⟨y, hy, hx⟩ := Option.bind_eq_some_iff.mp h
    apply Statement.mem_statements_of_mem_arm
    exact Tree.mem_statements_of_mem (List.mem_of_getElem? hy) (Statement.mem_statements_of_at? hx)

end Reanalysis
