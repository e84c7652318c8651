import Reanalysis.Proofs.Comparison

/-!
# Programs without a change between them

Two programs are equivalent when they differ in line numbers and layout at most. A comparison sees
less: it matches statements by their keys, and a simple statement may have the key of a conditional.
`Alike` is what it sees. Both relations meet exactly where no such pair is matched.
-/

namespace Reanalysis

/-- Equal up to line numbers, the text of conditionals, and whether an empty alternative is
written. -/
inductive Statement.Equivalent : Statement → Statement → Prop
  | simple (line line' : Nat) (text : String) : Equivalent (.simple line text) (.simple line' text)
  | conditional (line line' : Nat) (text text' test : String) {thenArm thenArm' : List Statement}
      {elseArm elseArm' : Option (List Statement)} :
      List.Forall₂ Equivalent thenArm thenArm' →
      List.Forall₂ Equivalent (elseArm.getD []) (elseArm'.getD []) →
      Equivalent (.conditional line text test thenArm elseArm)
        (.conditional line' text' test thenArm' elseArm')

def Tree.Equivalent (t u : Tree) : Prop := List.Forall₂ Statement.Equivalent t u

/-- Equal as far as keys and matched arms tell. -/
inductive Statement.Alike : Statement → Statement → Prop
  | leaf {s s' : Statement} : s.key = s'.key → s.test? = none ∨ s'.test? = none → Alike s s'
  | conditional (line line' : Nat) (text text' test : String) {thenArm thenArm' : List Statement}
      {elseArm elseArm' : Option (List Statement)} :
      List.Forall₂ Alike thenArm thenArm' →
      List.Forall₂ Alike (elseArm.getD []) (elseArm'.getD []) →
      Alike (.conditional line text test thenArm elseArm)
        (.conditional line' text' test thenArm' elseArm')

def Tree.Alike (t u : Tree) : Prop := List.Forall₂ Statement.Alike t u

theorem Statement.Alike.key_eq {s s' : Statement} (h : s.Alike s') : s.key = s'.key := by
  cases h with
  | leaf hKey _ => exact hKey
  | conditional => rfl

namespace Diff

theorem Aligned.collect_eq_nil_iff {here : Place} {size i j : Nat} {bs ms : List Statement}
    {es : Edits} (h : Aligned i j bs ms es) (hSize : size = i + bs.length)
    (hInner : ∀ b ∈ bs, ∀ m p q, b.key = m.key → (b.changes m p q = [] ↔ b.Alike m)) :
    here.collect size es [] [] = [] ↔ List.Forall₂ Statement.Alike bs ms := by
  induction bs generalizing i j ms es with
  | nil =>
    obtain ⟨_, rfl, hNil⟩ | ⟨_, _, _, _, _, hb, _⟩ | ⟨hHead, c, hc, _⟩ :=
      h.keep_or_change here hSize
    · simp [hNil]
    · cases hb
    · refine iff_of_false (List.ne_nil_of_mem hc) ?_
      intro hAlike
      cases hAlike
      exact hHead rfl
  | cons b bs ih =>
    obtain ⟨hb, _⟩ | ⟨_, m, _, ms, es, hb, rfl, hKey, hRest, hCollect⟩ | ⟨hHead, c, hc, _⟩ :=
      h.keep_or_change here hSize
    · cases hb
    · cases hb
      have hRest := ih hRest (by simp only [hSize, List.length_cons]; omega)
        (fun b hb => hInner b (List.mem_cons_of_mem _ hb))
      rw [hCollect, List.append_eq_nil_iff, List.forall₂_cons, hRest,
        hInner b List.mem_cons_self m _ _ hKey]
    · refine iff_of_false (List.ne_nil_of_mem hc) ?_
      intro hAlike
      cases hAlike with
      | cons hFirst _ => exact hHead (congrArg some hFirst.key_eq)

theorem Place.changes_eq_nil_iff {here : Place} {bs ms : List Statement}
    (hInner : ∀ b ∈ bs, ∀ m p q, b.key = m.key → (b.changes m p q = [] ↔ b.Alike m)) :
    here.changes bs ms = [] ↔ List.Forall₂ Statement.Alike bs ms := by
  obtain ⟨es, hAligned, hChanges⟩ := here.changes_aligned bs ms
  rw [hChanges]
  exact hAligned.collect_eq_nil_iff (Nat.zero_add _).symm hInner

theorem statement_changes_eq_nil_iff (b m : Statement) (p q : Path) (hKey : b.key = m.key) :
    b.changes m p q = [] ↔ b.Alike m := by
  induction b using Statement.induct_arms generalizing m p q with
  | simple line text => exact iff_of_true (by simp [Statement.changes]) (.leaf hKey (.inl rfl))
  | conditional line text test thenArm elseArm ihThen ihElse =>
    cases m with
    | simple line' text' => exact iff_of_true (by simp [Statement.changes]) (.leaf hKey (.inr rfl))
    | conditional line' text' test' thenArm' elseArm' =>
      cases hKey
      rw [changes_conditional, List.append_eq_nil_iff, Place.changes_eq_nil_iff ihThen,
        Place.changes_eq_nil_iff ihElse]
      constructor
      · rintro ⟨hThen, hElse⟩
        exact .conditional _ _ _ _ _ hThen hElse
      · intro hAlike
        cases hAlike with
        | leaf _ hShape => simp [Statement.test?] at hShape
        | conditional _ _ _ _ _ hThen hElse => exact ⟨hThen, hElse⟩

theorem changes_eq_nil_iff_alike (base modified : Tree) :
    Diff.changes base modified = [] ↔ Tree.Alike base modified :=
  Place.changes_eq_nil_iff fun b _ m p q hKey => statement_changes_eq_nil_iff b m p q hKey

end Diff

/-! ## Keys shared by statements of two shapes -/

def Statement.SharesKey (b m : Statement) : Prop :=
  b.key = m.key ∧ b.test?.isSome ≠ m.test?.isSome

def Statement.Confused (b m : Statement) : Prop :=
  ∃ p x y, Statement.at? p b = some x ∧ Statement.at? p m = some y ∧ x.SharesKey y

/-- A simple statement and a conditional with one key stand at one path of both programs. -/
def Tree.Confused (base modified : Tree) : Prop :=
  ∃ p x y, base.at? p = some x ∧ modified.at? p = some y ∧ x.SharesKey y

theorem Statement.confused_iff (b m : Statement) :
    b.Confused m ↔ b.SharesKey m ∨ ∃ a, Tree.Confused (b.arm a) (m.arm a) := by
  constructor
  · rintro ⟨p, x, y, hx, hy, hShares⟩
    cases p with
    | nil =>
      cases hx
      cases hy
      exact .inl hShares
    | cons a p => exact .inr ⟨a, p, x, y, by simpa using hx, by simpa using hy, hShares⟩
  · rintro (hShares | ⟨a, p, x, y, hx, hy, hShares⟩)
    · exact ⟨[], b, m, rfl, rfl, hShares⟩
    · exact ⟨a :: p, x, y, by simpa using hx, by simpa using hy, hShares⟩

theorem Tree.not_confused_nil (t : Tree) : ¬ Tree.Confused [] t := by
  rintro ⟨p, x, y, hx, _⟩
  obtain ⟨i, rest, rfl⟩ := Tree.exists_index_of_at? hx
  cases hx

theorem Tree.confused_cons_iff (b m : Statement) (bs ms : Tree) :
    Tree.Confused (b :: bs) (m :: ms) ↔ b.Confused m ∨ Tree.Confused bs ms := by
  constructor
  · rintro ⟨p, x, y, hx, hy, hShares⟩
    obtain ⟨i, rest, rfl⟩ := Tree.exists_index_of_at? hx
    cases i with
    | zero => exact .inl ⟨rest, x, y, hx, hy, hShares⟩
    | succ i => exact .inr ⟨.index i :: rest, x, y, hx, hy, hShares⟩
  · rintro (⟨p, x, y, hx, hy, hShares⟩ | ⟨p, x, y, hx, hy, hShares⟩)
    · exact ⟨.index 0 :: p, x, y, hx, hy, hShares⟩
    · obtain ⟨i, rest, rfl⟩ := Tree.exists_index_of_at? hx
      exact ⟨.index (i + 1) :: rest, x, y, hx, hy, hShares⟩

theorem Tree.equivalent_iff_of_statements {bs : List Statement} (ms : List Statement)
    (h : ∀ b ∈ bs, ∀ m, b.Equivalent m ↔ b.Alike m ∧ ¬ b.Confused m) :
    List.Forall₂ Statement.Equivalent bs ms ↔
      List.Forall₂ Statement.Alike bs ms ∧ ¬ Tree.Confused bs ms := by
  induction bs generalizing ms with
  | nil => simp [Tree.not_confused_nil]
  | cons b bs ih =>
    cases ms with
    | nil => simp
    | cons m ms =>
      rw [List.forall₂_cons, List.forall₂_cons, Tree.confused_cons_iff,
        h b List.mem_cons_self m, ih ms fun b hb => h b (List.mem_cons_of_mem _ hb)]
      tauto

theorem Statement.confused_conditional_iff (line line' : Nat) (text text' test test' : String)
    (thenArm thenArm' : List Statement) (elseArm elseArm' : Option (List Statement)) :
    (Statement.conditional line text test thenArm elseArm).Confused
        (.conditional line' text' test' thenArm' elseArm') ↔
      Tree.Confused thenArm thenArm' ∨ Tree.Confused (elseArm.getD []) (elseArm'.getD []) := by
  rw [Statement.confused_iff]
  constructor
  · rintro (⟨_, hShape⟩ | ⟨a, hArm⟩)
    · exact absurd rfl hShape
    · cases a with
      | index i => exact absurd hArm (Tree.not_confused_nil _)
      | thenArm => exact .inl hArm
      | elseArm => exact .inr hArm
  · rintro (hThen | hElse)
    · exact .inr ⟨.thenArm, hThen⟩
    · exact .inr ⟨.elseArm, hElse⟩

theorem Statement.Alike.confused {b m : Statement} (h : b.Alike m)
    (hShape : b.test?.isSome ≠ m.test?.isSome) : b.Confused m :=
  ⟨[], b, m, rfl, rfl, h.key_eq, hShape⟩

theorem Statement.equivalent_iff (b m : Statement) :
    b.Equivalent m ↔ b.Alike m ∧ ¬ b.Confused m := by
  induction b using Statement.induct_arms generalizing m with
  | simple line text =>
    cases m with
    | simple line' text' =>
      constructor
      · intro h
        cases h
        refine ⟨.leaf rfl (.inl rfl), ?_⟩
        rw [Statement.confused_iff]
        rintro (⟨_, hShape⟩ | ⟨a, hArm⟩)
        · exact hShape rfl
        · cases a <;> exact Tree.not_confused_nil _ hArm
      · rintro ⟨hAlike, _⟩
        cases hAlike.key_eq
        exact .simple _ _ _
    | conditional line' text' test' thenArm' elseArm' =>
      refine iff_of_false nofun ?_
      rintro ⟨hAlike, hClear⟩
      exact hClear (hAlike.confused (by simp [Statement.test?]))
  | conditional line text test thenArm elseArm ihThen ihElse =>
    cases m with
    | simple line' text' =>
      refine iff_of_false nofun ?_
      rintro ⟨hAlike, hClear⟩
      exact hClear (hAlike.confused (by simp [Statement.test?]))
    | conditional line' text' test' thenArm' elseArm' =>
      have hThen := Tree.equivalent_iff_of_statements thenArm' ihThen
      have hElse := Tree.equivalent_iff_of_statements (elseArm'.getD []) ihElse
      rw [Statement.confused_conditional_iff, not_or]
      constructor
      · intro h
        cases h with
        | conditional _ _ _ _ _ h₁ h₂ =>
          obtain ⟨hAlike₁, hClear₁⟩ := hThen.mp h₁
          obtain ⟨hAlike₂, hClear₂⟩ := hElse.mp h₂
          exact ⟨.conditional _ _ _ _ _ hAlike₁ hAlike₂, hClear₁, hClear₂⟩
      · rintro ⟨hAlike, hClear₁, hClear₂⟩
        cases hAlike with
        | leaf _ hShape => simp [Statement.test?] at hShape
        | conditional _ _ _ _ _ hAlike₁ hAlike₂ =>
          exact .conditional _ _ _ _ _ (hThen.mpr ⟨hAlike₁, hClear₁⟩) (hElse.mpr ⟨hAlike₂, hClear₂⟩)

theorem Tree.equivalent_iff (base modified : Tree) :
    base.Equivalent modified ↔ base.Alike modified ∧ ¬ base.Confused modified :=
  Tree.equivalent_iff_of_statements modified fun b _ m => b.equivalent_iff m

namespace Diff

/-- Programs have no change between them exactly when they look alike. So the absence of changes
means equivalence, unless the programs look alike and a simple statement of the one stands in the
place of a conditional of the other. -/
theorem no_change_iff (base modified : Tree) :
    (Diff.changes base modified = [] ↔ base.Alike modified) ∧
    ((Diff.changes base modified = [] ↔ base.Equivalent modified) ↔
      ¬ (base.Alike modified ∧ base.Confused modified)) := by
  have hAlike := changes_eq_nil_iff_alike base modified
  have hEquivalent := Tree.equivalent_iff base modified
  refine ⟨hAlike, ?_⟩
  rw [hAlike, hEquivalent]
  tauto

/-- A parenthesised expression and a conditional with that test. -/
theorem no_change_between_expression_and_conditional :
    Diff.changes [.simple 1 "( a )"]
        [.conditional 1 "if ( a ) { launch ( ) ; }" "( a )" [.simple 1 "launch ( ) ;"] none] = [] ∧
      ¬ Tree.Equivalent [.simple 1 "( a )"]
        [.conditional 1 "if ( a ) { launch ( ) ; }" "( a )" [.simple 1 "launch ( ) ;"] none] := by
  refine ⟨(changes_eq_nil_iff_alike _ _).mpr (.cons (.leaf rfl (.inl rfl)) .nil), ?_⟩
  intro h
  cases h with
  | cons hFirst _ => cases hFirst

end Diff

/-! ## Programs that keep the two apart -/

def Tree.simpleTexts (t : Tree) : List String :=
  ((Tree.statements t).filter (·.test?.isNone)).map Statement.text

def Tree.tests (t : Tree) : List String := (Tree.statements t).filterMap Statement.test?

/-- No simple statement of one program has the text of a test of the other. -/
def Tree.Unambiguous (base modified : Tree) : Prop :=
  (∀ text ∈ base.simpleTexts, text ∉ modified.tests) ∧
    ∀ text ∈ modified.simpleTexts, text ∉ base.tests

instance (base modified : Tree) : Decidable (base.Unambiguous modified) :=
  inferInstanceAs (Decidable (_ ∧ _))

/-- No statement within the one and statement within the other are confused, whatever their
paths. -/
def Statement.Clear (b m : Statement) : Prop :=
  ∀ x ∈ b.statements, ∀ y ∈ m.statements, ¬ x.SharesKey y

def Tree.Clear (t u : List Statement) : Prop := ∀ b ∈ t, ∀ m ∈ u, b.Clear m

theorem Tree.Unambiguous.clear {base modified : Tree} (h : base.Unambiguous modified) :
    Tree.Clear base modified := by
  rintro b hb m hm x hx y hy ⟨hKey, hShape⟩
  have hx := Tree.mem_statements_of_mem hb hx
  have hy := Tree.mem_statements_of_mem hm hy
  cases x <;> cases y <;> try exact hShape rfl
  · refine h.1 _ (List.mem_map.mpr ⟨_, List.mem_filter.mpr ⟨hx, rfl⟩, rfl⟩) ?_
    exact List.mem_filterMap.mpr ⟨_, hy, congrArg some hKey.symm⟩
  · refine h.2 _ (List.mem_map.mpr ⟨_, List.mem_filter.mpr ⟨hy, rfl⟩, rfl⟩) ?_
    exact List.mem_filterMap.mpr ⟨_, hx, congrArg some hKey⟩

theorem Statement.Clear.not_sharesKey {b m : Statement} (h : b.Clear m) : ¬ b.SharesKey m :=
  h b b.self_mem_statements m m.self_mem_statements

theorem Statement.Clear.arm {b m : Statement} (h : b.Clear m) (a : Segment) :
    Tree.Clear (b.arm a) (m.arm a) := by
  intro b' hb m' hm x hx y hy
  apply h x (Statement.mem_statements_of_mem_arm (Tree.mem_statements_of_mem hb hx))
  exact Statement.mem_statements_of_mem_arm (Tree.mem_statements_of_mem hm hy)

theorem Statement.Clear.equivalent {b m : Statement} (h : b.Clear m) (hAlike : b.Alike m) :
    b.Equivalent m := by
  refine (b.equivalent_iff m).mpr ⟨hAlike, ?_⟩
  rintro ⟨p, x, y, hx, hy, hShares⟩
  exact h x (Statement.mem_statements_of_at? hx) y (Statement.mem_statements_of_at? hy) hShares

end Reanalysis
