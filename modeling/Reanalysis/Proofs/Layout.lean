import Reanalysis.Diff.Plan
import Reanalysis.Proofs.Equivalence
import Reanalysis.Script.Node

/-!
# Layout and comments

A syntax tree is made bare by taking out its comments and its rows. The reduction of a tree and that of
the bare tree have the same statements on other lines (`Node.unlined_reduce_bare`), so trees that are the
same when they are bare have no change between them.
-/

namespace Reanalysis

/-! ## Statements without lines -/

mutual

def Statement.unlined : Statement → Statement
  | .simple _ text => .simple 0 text
  | .conditional _ text test thenArm elseArm =>
    .conditional 0 text test (Tree.unlined thenArm) (Tree.armUnlined elseArm)

/-- The program with all line numbers taken out. -/
def Tree.unlined : List Statement → List Statement
  | [] => []
  | s :: rest => s.unlined :: Tree.unlined rest

def Tree.armUnlined : Option (List Statement) → Option (List Statement)
  | none => none
  | some arm => some (Tree.unlined arm)

end

theorem Tree.unlined_append (t u : List Statement) :
    Tree.unlined (t ++ u) = Tree.unlined t ++ Tree.unlined u := by
  induction t with
  | nil => rfl
  | cons s t ih => rw [List.cons_append, Tree.unlined, ih, Tree.unlined, List.cons_append]

theorem Tree.armUnlined_getD (arm : Option (List Statement)) :
    (Tree.armUnlined arm).getD [] = Tree.unlined (arm.getD []) := by
  cases arm with
  | none => rfl
  | some arm => rfl

theorem Tree.alike_of_unlined {t u : List Statement}
    (hInner : ∀ s ∈ t, ∀ s', s.unlined = s'.unlined → s.Alike s')
    (h : Tree.unlined t = Tree.unlined u) : List.Forall₂ Statement.Alike t u := by
  induction t generalizing u with
  | nil =>
    cases u with
    | nil => exact .nil
    | cons s' u => cases h
  | cons s t ih =>
    cases u with
    | nil => cases h
    | cons s' u =>
      obtain ⟨hFirst, hRest⟩ := List.cons.inj h
      exact .cons (hInner s List.mem_cons_self s' hFirst)
        (ih (fun s hs => hInner s (List.mem_cons_of_mem _ hs)) hRest)

theorem Statement.alike_of_unlined (s s' : Statement) (h : s.unlined = s'.unlined) : s.Alike s' := by
  induction s using Statement.induct_arms generalizing s' with
  | simple line text =>
    cases s' with
    | simple line' text' => exact .leaf (Statement.simple.inj h).2 (.inl rfl)
    | conditional => cases h
  | conditional line text test thenArm elseArm ihThen ihElse =>
    cases s' with
    | simple => cases h
    | conditional line' text' test' thenArm' elseArm' =>
      obtain ⟨-, -, rfl, hThen, hElse⟩ := Statement.conditional.inj h
      have hElse := congrArg (Option.getD · []) hElse
      rw [Tree.armUnlined_getD, Tree.armUnlined_getD] at hElse
      exact .conditional _ _ _ _ _ (Tree.alike_of_unlined ihThen hThen)
        (Tree.alike_of_unlined ihElse hElse)

theorem Diff.changes_of_unlined {base modified : Tree}
    (h : Tree.unlined base = Tree.unlined modified) : Diff.changes base modified = [] :=
  (changes_eq_nil_iff_alike base modified).mpr
    (Tree.alike_of_unlined (fun s _ => s.alike_of_unlined) h)

namespace Script.Node

/-! ## Bare trees -/

mutual

/-- The tree without its comments and with all rows the same. -/
def bare : Node → Node
  | .leaf kind _ text => .leaf kind 0 text
  | .branch kind _ children => .branch kind 0 (bareChildren children)

def bareChildren : List (Option Field × Node) → List (Option Field × Node)
  | [] => []
  | (f, n) :: rest =>
    if n.kind = .comment then bareChildren rest else (f, n.bare) :: bareChildren rest

end

/-- No comment has a role in the conditional that it stands in. -/
inductive CommentsIdle : Node → Prop
  | leaf (kind : Kind) (row : Nat) (text : String) : CommentsIdle (.leaf kind row text)
  | branch (kind : Kind) (row : Nat) {children : List (Option Field × Node)} :
      (∀ c ∈ children, c.2.kind = .comment → c.1 = none) → (∀ c ∈ children, CommentsIdle c.2) →
      CommentsIdle (.branch kind row children)

theorem commentsIdle_branch_iff (kind : Kind) (row : Nat) (children : List (Option Field × Node)) :
    CommentsIdle (.branch kind row children) ↔
      (∀ c ∈ children, c.2.kind = .comment → c.1 = none) ∧ ∀ c ∈ children, CommentsIdle c.2 := by
  constructor
  · intro h
    cases h with
    | branch _ _ hRoles hChildren => exact ⟨hRoles, hChildren⟩
  · rintro ⟨hRoles, hChildren⟩
    exact .branch kind row hRoles hChildren

/-- Induction on trees, with the parts as a list of smaller trees. -/
theorem induct_children {P : Node → Prop} (leaf : ∀ kind row text, P (.leaf kind row text))
    (branch : ∀ kind row children, (∀ c ∈ children, P c.2) → P (.branch kind row children))
    (n : Node) : P n := by
  refine @Node.rec P (fun children => ∀ c ∈ children, P c.2) (fun c => P c.2) leaf branch ?_ ?_ ?_ n
  · simp
  · intro head tail hHead hTail c hc
    rcases List.mem_cons.mp hc with rfl | hc
    · exact hHead
    · exact hTail c hc
  · intro f n hn
    exact hn

@[simp] theorem kind_bare (n : Node) : n.bare.kind = n.kind := by
  cases n <;> rfl

theorem tokens_of_comment {n : Node} (h : n.kind = .comment) : n.tokens = [] := by
  cases n with
  | leaf kind row text =>
    cases (show kind = .comment from h)
    rw [tokens]
    rfl
  | branch kind row children =>
    cases (show kind = .comment from h)
    rw [tokens]
    rfl

theorem childTokens_bare {cs : List (Option Field × Node)} (h : ∀ c ∈ cs, c.2.bare.tokens = c.2.tokens) :
    childTokens (bareChildren cs) = childTokens cs := by
  induction cs with
  | nil => rfl
  | cons c cs ih =>
    obtain ⟨f, n⟩ := c
    have ih := ih fun c hc => h c (List.mem_cons_of_mem _ hc)
    rw [bareChildren]
    split
    · rename_i hComment
      rw [childTokens, tokens_of_comment hComment, ih, List.nil_append]
    · rw [childTokens, childTokens, ih, h (f, n) List.mem_cons_self]

theorem tokens_bare (n : Node) : n.bare.tokens = n.tokens := by
  induction n using induct_children with
  | leaf kind row text => rfl
  | branch kind row children ih => rw [bare, tokens, tokens, childTokens_bare ih]

theorem text_bare (n : Node) : n.bare.text = n.text := by
  rw [text, tokens_bare, text]

/-- A part with a role is no comment, so it is still there. -/
theorem field?_bareChildren (f : Field) {cs : List (Option Field × Node)}
    (h : ∀ c ∈ cs, c.2.kind = .comment → c.1 = none) :
    field? f (bareChildren cs) = (field? f cs).map bare := by
  induction cs with
  | nil => rfl
  | cons c cs ih =>
    obtain ⟨g, n⟩ := c
    have ih := ih fun c hc => h c (List.mem_cons_of_mem _ hc)
    rw [field?, field?] at ih ⊢
    rw [bareChildren, List.find?_cons]
    split
    · rename_i hComment
      have hNone : g = none := h (g, n) List.mem_cons_self hComment
      rw [hNone]
      exact ih
    · rw [List.find?_cons]
      by_cases hg : g = some f
      · simp [hg]
      · simpa [hg] using ih

/-! ## Their reduction -/

/-- Comments and rows leave no trace but lines when the tree is reduced, as a statement, as an arm or as
what follows the word `else`. -/
structure Stable (n : Node) : Prop where
  statement : n.bare.statement.unlined = n.statement.unlined
  arm : Tree.unlined n.bare.arm = Tree.unlined n.arm
  clause : Tree.unlined n.bare.clause = Tree.unlined n.clause

section Children

variable {cs : List (Option Field × Node)}

theorem unlined_statements (h : ∀ c ∈ cs, c.2.Stable) :
    Tree.unlined (statements (bareChildren cs)) = Tree.unlined (statements cs) := by
  induction cs with
  | nil => rfl
  | cons c cs ih =>
    obtain ⟨f, n⟩ := c
    have ih := ih fun c hc => h c (List.mem_cons_of_mem _ hc)
    rw [bareChildren, statements]
    split
    · rename_i hComment
      rw [ih, hComment]
      rfl
    · rw [statements, kind_bare]
      split
      · rw [Tree.unlined, Tree.unlined, ih, (h (f, n) List.mem_cons_self).statement]
      · exact ih

theorem unlined_arms (h : ∀ c ∈ cs, c.2.Stable) :
    Tree.unlined (arms (bareChildren cs)) = Tree.unlined (arms cs) := by
  induction cs with
  | nil => rfl
  | cons c cs ih =>
    obtain ⟨f, n⟩ := c
    have ih := ih fun c hc => h c (List.mem_cons_of_mem _ hc)
    rw [bareChildren, arms]
    split
    · rename_i hComment
      rw [ih, hComment]
      rfl
    · rw [arms, kind_bare]
      split
      · rw [Tree.unlined_append, Tree.unlined_append, ih, (h (f, n) List.mem_cons_self).arm]
      · exact ih

variable (hIdle : ∀ c ∈ cs, c.2.kind = .comment → c.1 = none)

include hIdle

theorem unlined_consequence (h : ∀ c ∈ cs, c.2.Stable) :
    Tree.unlined (consequence (bareChildren cs)) = Tree.unlined (consequence cs) := by
  induction cs with
  | nil => rfl
  | cons c cs ih =>
    obtain ⟨f, n⟩ := c
    have ih := ih (fun c hc => hIdle c (List.mem_cons_of_mem _ hc))
      fun c hc => h c (List.mem_cons_of_mem _ hc)
    rw [bareChildren, consequence]
    split
    · -- A comment without a role cannot be the consequence.
      rename_i hComment
      have hNone : f = none := hIdle (f, n) List.mem_cons_self hComment
      rw [ih, hNone]
      rfl
    · rw [consequence]
      split
      · exact (h (f, n) List.mem_cons_self).arm
      · exact ih

theorem unlined_alternative (h : ∀ c ∈ cs, c.2.Stable) :
    Tree.armUnlined (alternative (bareChildren cs)) = Tree.armUnlined (alternative cs) := by
  induction cs with
  | nil => rfl
  | cons c cs ih =>
    obtain ⟨f, n⟩ := c
    have ih := ih (fun c hc => hIdle c (List.mem_cons_of_mem _ hc))
      fun c hc => h c (List.mem_cons_of_mem _ hc)
    rw [bareChildren, alternative]
    split
    · rename_i hComment
      have hNone : f = none := hIdle (f, n) List.mem_cons_self hComment
      rw [ih, hNone]
      rfl
    · rw [alternative]
      split
      · rw [Tree.armUnlined, Tree.armUnlined, (h (f, n) List.mem_cons_self).clause]
      · exact ih

theorem unlined_assemble (h : ∀ c ∈ cs, c.2.Stable) (kind : Kind) (row : Nat) :
    (assemble kind 0 (bareChildren cs) (consequence (bareChildren cs))
        (alternative (bareChildren cs))).unlined =
      (assemble kind row cs (consequence cs) (alternative cs)).unlined := by
  have hText : (Node.branch kind 0 (bareChildren cs)).text = (Node.branch kind row cs).text := by
    rw [← text_bare (.branch kind row cs), bare]
  have hTest : (field? .condition (bareChildren cs)).map text = (field? .condition cs).map text := by
    rw [field?_bareChildren .condition hIdle, Option.map_map]
    exact congrArg (Option.map · _) (funext text_bare)
  rw [assemble, assemble, hText, hTest]
  split
  · rw [Statement.unlined, Statement.unlined, unlined_consequence hIdle h, unlined_alternative hIdle h]
  · rfl

end Children

theorem stable (n : Node) (hIdle : n.CommentsIdle) : n.Stable := by
  induction n using induct_children with
  | leaf kind row text =>
    refine ⟨rfl, ?_, rfl⟩
    rw [bare, arm, arm]
    split <;> rfl
  | branch kind row children ih =>
    obtain ⟨hRoles, hChildren⟩ := (commentsIdle_branch_iff ..).mp hIdle
    have hStable : ∀ c ∈ children, c.2.Stable := fun c hc => ih c hc (hChildren c hc)
    have hAssemble := unlined_assemble hRoles hStable kind row
    refine ⟨?_, ?_, ?_⟩
    · rw [bare, statement, statement, hAssemble]
    · rw [bare, arm, arm]
      split
      · exact unlined_statements hStable
      · split
        · rfl
        · exact congrArg (· :: []) hAssemble
    · rw [bare, clause, clause]
      exact unlined_arms hStable

theorem unlined_reduce_bare {n : Node} (hIdle : n.CommentsIdle) :
    Tree.unlined n.bare.reduce = Tree.unlined n.reduce := by
  cases hIdle with
  | leaf kind row text => rfl
  | branch kind row hRoles hChildren =>
    rw [bare, reduce, reduce]
    exact unlined_statements fun c hc => stable c.2 (hChildren c hc)

end Script.Node

theorem Plan.compute_nil (base : Tree) : Plan.compute base [] = ⟨[], base.sites, none⟩ := by
  simp [Plan.compute, Plan.isHit, Plan.earliest?]

namespace Script.Node

/-- Trees that are the same without their comments and rows reduce to programs that are the same except
for lines. There is no change between them, and every conditional is reused. -/
theorem layout_leaves_no_change {a b : Node} (ha : a.CommentsIdle) (hb : b.CommentsIdle)
    (h : a.bare = b.bare) :
    Tree.unlined a.reduce = Tree.unlined b.reduce ∧
    Diff.changes a.reduce b.reduce = [] ∧
    let plan := Plan.compute a.reduce (Diff.changes a.reduce b.reduce)
    plan.reusable = a.reduce.sites ∧ plan.invalidated = [] := by
  have hSame : Tree.unlined a.reduce = Tree.unlined b.reduce := by
    rw [← unlined_reduce_bare ha, h, unlined_reduce_bare hb]
  have hNone := Diff.changes_of_unlined hSame
  refine ⟨hSame, hNone, ?_⟩
  rw [hNone, Plan.compute_nil]
  exact ⟨rfl, rfl⟩

/-- The tree of `if (a) \x7b b; \x7d else c;` on one line. -/
def onOneLine : Node :=
  .branch .other 0 [(none, .branch .conditional 0 [
    (none, .leaf .token 0 "if"),
    (some .condition, .branch .other 0 [
      (none, .leaf .token 0 "("), (none, .leaf .other 0 "a"), (none, .leaf .token 0 ")")]),
    (some .consequence, .branch .block 0 [
      (none, .leaf .token 0 "\x7b"),
      (none, .branch .other 0 [(none, .leaf .other 0 "b"), (none, .leaf .token 0 ";")]),
      (none, .leaf .token 0 "\x7d")]),
    (some .alternative, .branch .elseClause 0 [
      (none, .leaf .token 0 "else"),
      (none, .branch .other 0 [(none, .leaf .other 0 "c"), (none, .leaf .token 0 ";")])])])]

/-- The same on several lines, with a comment wherever one can stand. -/
def commented : Node :=
  .branch .other 0 [
    (none, .leaf .comment 0 "// choose"),
    (none, .branch .conditional 1 [
      (none, .leaf .token 1 "if"),
      (none, .leaf .comment 1 "/* test */"),
      (some .condition, .branch .other 1 [
        (none, .leaf .token 1 "("), (none, .leaf .other 1 "a"),
        (none, .leaf .comment 1 "/* is set */"), (none, .leaf .token 1 ")")]),
      (none, .leaf .comment 1 "// then"),
      (some .consequence, .branch .block 2 [
        (none, .leaf .token 2 "\x7b"),
        (none, .leaf .comment 2 "// first"),
        (none, .branch .other 3 [(none, .leaf .other 3 "b"), (none, .leaf .token 3 ";")]),
        (none, .leaf .token 4 "\x7d")]),
      (some .alternative, .branch .elseClause 5 [
        (none, .leaf .token 5 "else"),
        (none, .leaf .comment 5 "// or"),
        (none, .branch .other 6 [
          (none, .leaf .other 6 "c"), (none, .leaf .comment 6 "/* last */"),
          (none, .leaf .token 6 ";")])])])]

theorem comments_leave_no_change :
    (onOneLine.CommentsIdle ∧ commented.CommentsIdle ∧ onOneLine.bare = commented.bare) ∧
      Tree.unlined onOneLine.reduce = Tree.unlined commented.reduce ∧
      Diff.changes onOneLine.reduce commented.reduce = [] ∧
      (Plan.compute onOneLine.reduce (Diff.changes onOneLine.reduce commented.reduce)).reusable =
        [⟨[.index 0], "( a )", 1⟩] := by
  have hOneLine : onOneLine.CommentsIdle := by
    simp [onOneLine, commentsIdle_branch_iff, CommentsIdle.leaf, kind]
  have hCommented : commented.CommentsIdle := by
    simp [commented, commentsIdle_branch_iff, CommentsIdle.leaf, kind]
  have hBare : onOneLine.bare = commented.bare := rfl
  obtain ⟨hSame, hNone, hReusable, -⟩ := layout_leaves_no_change hOneLine hCommented hBare
  exact ⟨⟨hOneLine, hCommented, hBare⟩, hSame, hNone, hReusable⟩

end Script.Node

end Reanalysis
