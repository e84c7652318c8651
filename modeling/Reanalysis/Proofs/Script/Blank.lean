import Mathlib.Data.List.TakeWhile
import Reanalysis.Proofs.Script.Start
import Reanalysis.Script.Program

/-!
# Blank texts

A text of blanks has one token, its end, and one reading: the program without statements.
-/

namespace Reanalysis.Script

/-! ## The only token of a blank text -/

def IsBlank (cs : List Char) : Prop := ∀ c ∈ cs, isSpace c = true

theorem startsWith_of_isBlank {cs : List Char} (hBlank : IsBlank cs) {text : String} {c : Char}
    {rest : List Char} (hText : text.toList = c :: rest) (hMark : isSpace c = false) :
    startsWith text cs = false := by
  rw [startsWith, hText]
  cases cs with
  | nil => rfl
  | cons d cs =>
    have hNe : c ≠ d := by
      rintro rfl
      rw [hBlank c List.mem_cons_self] at hMark
      cases hMark
    rw [List.isPrefixOf_cons_cons, beq_false_of_ne hNe, Bool.false_and]

theorem pageCommentLength_of_isBlank {cs : List Char} (hBlank : IsBlank cs) :
    pageCommentLength cs = 0 := by
  have hOpens : startsWith "<!--" cs = false := startsWith_of_isBlank hBlank rfl rfl
  have hCloses : startsWith "-->" cs = false := startsWith_of_isBlank hBlank rfl rfl
  rw [pageCommentLength, hOpens, hCloses, Bool.or_false, if_neg Bool.false_ne_true]

theorem Token.length_nil (t : Token) : t.length [] = 0 := by
  cases t with
  | fixed text =>
    rw [Token.length]
    split
    · rename_i hStarts
      rw [startsWith] at hStarts
      have hNil : text.toList = [] := by
        cases hText : text.toList with
        | nil => rfl
        | cons c rest => rw [hText] at hStarts; cases hStarts
      rw [← String.length_toList, hNil]
      rfl
    · rfl
  | _ => rfl

theorem foldl_eq_self {α β : Type} {f : α → β → α} {a : α} {bs : List β} (h : ∀ b ∈ bs, f a b = a) :
    bs.foldl f a = a := by
  induction bs with
  | nil => rfl
  | cons b bs ih =>
    rw [List.foldl_cons, h b List.mem_cons_self]
    exact ih fun c hc => h c (List.mem_cons_of_mem b hc)

namespace Lookahead

variable {s : State} {p : Place}

theorem skipSpaces_of_isBlank (hBlank : IsBlank p.rest) (hLeft : p.left = p.rest.length) :
    p.skipSpaces.rest = [] ∧ p.skipSpaces.left = 0 := by
  have hAll : p.rest.takeWhile isSpace = p.rest := List.takeWhile_eq_self_iff.mpr hBlank
  rw [Place.skipSpaces, Place.advance, hAll, hLeft]
  exact ⟨List.drop_length, Nat.sub_self _⟩

theorem pageComment?_of_isBlank (hBlank : IsBlank p.rest) : pageComment? p = none := by
  have hRest : ∀ n, IsBlank (p.advance n).rest := fun n c hc => hBlank c (List.mem_of_mem_drop hc)
  rw [pageComment?]
  simp only [pageCommentLength_of_isBlank (hRest _)]

theorem special?_of_opens (h : s.Opens) (hBlank : IsBlank p.rest) : special? s p = none := by
  rw [special?, h.outer .templateText rfl, h.outer .tagText rfl, h.outer .omittedSemicolon rfl,
    h.outer .questionMark rfl, if_neg Bool.false_ne_true, Bool.false_and, if_neg Bool.false_ne_true,
    if_neg Bool.false_ne_true, if_neg Bool.false_ne_true]
  split
  · rfl
  · exact pageComment?_of_isBlank hBlank

theorem find?_of_rest {q : Place} {t : Token} (hRest : q.rest = []) (hLoose : t.isImmediate = false) :
    find? p q t = none := by
  rw [find?, hLoose, if_neg Bool.false_ne_true, hRest, Token.length_nil]
  rfl

theorem longest?_of_opens (h : s.Opens) (hBlank : IsBlank p.rest) (hLeft : p.left = p.rest.length) :
    longest? s p = some { token := .endOfText, start := p.skipSpaces, stop := p.skipSpaces } := by
  obtain ⟨hRest, hNone⟩ := skipSpaces_of_isBlank hBlank hLeft
  rw [longest?, foldl_eq_self]
  · rw [h.endOfText, hNone]
    rfl
  · intro t ht
    rw [find?_of_rest hRest (h.sought t ht)]

end Lookahead

theorem State.Opens.lookahead? {s : State} (h : s.Opens) {p : Place} (hBlank : IsBlank p.rest)
    (hLeft : p.left = p.rest.length) :
    s.lookahead? p = some { token := .endOfText, start := p.skipSpaces, stop := p.skipSpaces } := by
  have hSpecial := Lookahead.special?_of_opens h hBlank
  have hLongest := Lookahead.longest?_of_opens h hBlank hLeft
  obtain ⟨lookahead, hLookahead⟩ : ∃ f, f = State.lookahead? := ⟨_, rfl⟩
  obtain ⟨special, hf⟩ : ∃ f, f = Lookahead.special? := ⟨_, rfl⟩
  rw [← hLookahead]
  delta State.lookahead? at hLookahead
  rw [← hf] at hSpecial hLookahead
  subst hLookahead
  beta_reduce
  rw [hSpecial, hLongest]

/-! ## The only reading of a blank text -/

theorem productionAt_four : productionAt 4 = Production.empty := by
  rw [productionAt, Array.getD_eq_getD_getElem?, Production.getElem?_four, Option.getD_some]

theorem Stack.pop_zero (s : Stack) : s.pop 0 [] = [(s, [])] := by
  cases s
  rw [Stack.pop]

theorem Stack.paths_single (n m : Nat) (top below : State) (p q : Place) (t : Subtree) :
    (Stack.mk n top p [(t, .mk m below q [])]).paths [] = [[t]] := by
  simp [Stack.paths, Stack.pathsOf]

namespace Work

variable {w : Session}

theorem reduce_of_steps {s : Stack} {r : Nat} (hSteps : (productionAt r).steps = []) :
    reduce s r w =
      ([.mk w.stamp (w.automaton.goto s.state (left r)).1 s.place
        [(.ofProduction (productionAt r) s.place [], s)]],
      { w with automaton := (w.automaton.goto s.state (left r)).2, stamp := w.stamp + 1 }) := by
  rw [reduce, hSteps, List.length_nil, Stack.pop_zero]
  rfl

/-- A reading that has come to the program and nothing else is taken in as it is. -/
theorem finish_single {s : Stack} {phrase : Phrase} {fields : List (Option Field)} {span : Span}
    {weight : Int} {children : List Subtree} (hNone : w.result = none)
    (hPaths : s.paths [] = [[.node phrase fields span weight children]]) :
    (finish s w).2.result = some (.node phrase [] span weight children) := by
  have hTree : (finish s w).2.result =
      some ((w.result.getD (.node phrase [] span weight ([] ++ children ++ []))).heavier
        (.node phrase [] span weight ([] ++ children ++ []))) := by
    rw [finish, hPaths]
    rfl
  rw [hTree, hNone, Option.getD_none, Subtree.heavier, ite_self, List.nil_append, List.append_nil]

theorem read_of_isFinal {fuel : Nat} {t : Lookahead} {s : Stack} {others : List Stack}
    (hToken : t.token = .endOfText) (hFinal : s.state.isFinal = true) :
    read (fuel + 1) t s others w = (others, (finish s w).2) := by
  rw [read, hToken, hFinal]
  rfl

theorem read_of_reduction {t : Lookahead} {s top : Stack} {w' : Session} {r : Nat}
    (hToken : t.token = .endOfText) (hFinal : s.state.isFinal = false)
    (hDecision : s.state.decide Token.endOfText.code = ⟨[r], false⟩)
    (hReduce : reduce s r w = ([top], w')) (fuel : Nat) (others : List Stack) :
    read (fuel + 1) t s others w = read fuel t top others w' := by
  rw [read, hToken, hFinal, hDecision]
  rw [if_neg (by decide), Bool.and_false, if_neg Bool.false_ne_true]
  simp only [List.forIn_cons, List.forIn_nil, List.isEmpty_cons, Bool.false_and,
    if_neg Bool.false_ne_true, bind, StateT.bind, hReduce]
  rfl

theorem run_single {rounds fuel : Nat} {s : Stack} {t : Lookahead} {w' : Session}
    (hLookahead : s.state.lookahead? s.place = some t) (hRead : read fuel t s [] w = ([], w')) :
    run (rounds + 1) fuel [s] w = ((), w') := by
  have hEnd : run rounds fuel [] w' = ((), w') := by
    cases rounds with
    | zero => rw [run]; rfl
    | succ rounds => rw [run]; rfl
  obtain ⟨lookahead, hFun⟩ : ∃ f, f = State.lookahead? := ⟨_, rfl⟩
  rw [run]
  rw [← hFun] at hLookahead ⊢
  simp only [List.foldl_nil, List.filter_cons, List.filter_nil, ne_eq, not_true_eq_false, decide_false,
    decide_true, if_true, if_neg Bool.false_ne_true, List.forIn_cons, List.forIn_nil, bind, StateT.bind,
    hLookahead, hRead]
  exact hEnd

theorem run_of_opens {s : State} (h : s.Opens)
    (hGoto : (w.automaton.goto s Phrase.program.code).1.isFinal = true) {p : Place}
    (hBlank : IsBlank p.rest) (hLeft : p.left = p.rest.length) (hNone : w.result = none)
    (n rounds fuel : Nat) :
    ∃ span weight, ∃ w' : Session, run (rounds + 1) (fuel + 1 + 1) [.mk n s p []] w = ((), w') ∧
      w'.result = some (.node .program [] span weight []) := by
  have hSteps : (productionAt 4).steps = [] := by rw [productionAt_four]; rfl
  have hReduce := reduce_of_steps (s := .mk n s p []) (w := w) hSteps
  rw [productionAt_four, left_four] at hReduce
  have hRead := read_of_reduction (s := .mk n s p []) (t := ⟨.endOfText, p.skipSpaces, p.skipSpaces, false⟩)
    rfl h.isFinal_eq_false h.decide_endOfText hReduce (fuel + 1) []
  have hEnd := hRead.trans (read_of_isFinal rfl hGoto)
  exact ⟨_, _, _, run_single (s := .mk n s p []) (h.lookahead? hBlank hLeft) hEnd,
    finish_single hNone (Stack.paths_single _ _ _ _ _ _ _)⟩

end Work

theorem readAll_of_isBlank {cs : List Char} (hBlank : IsBlank cs) :
    ∃ span weight, readAll cs = .ok (.node .program [] span weight []) := by
  obtain ⟨span, weight, w, hRun, hResult⟩ := Work.run_of_opens
    (w := ⟨.initial, 1, none, Place.start cs⟩) opens_start isFinal_goto_program (p := Place.start cs) hBlank
    rfl rfl 0 (4 * cs.length + 7) (64 * cs.length + 62)
  refine ⟨span, weight, ?_⟩
  obtain ⟨run, hFun⟩ : ∃ f, f = Work.run := ⟨_, rfl⟩
  obtain ⟨all, hAll⟩ : ∃ f, f = readAll := ⟨_, rfl⟩
  rw [← hAll]
  delta readAll at hAll
  rw [← hFun] at hRun hAll
  subst hAll
  beta_reduce
  dsimp only [Place.start] at hRun ⊢
  rw [hRun]
  dsimp only
  rw [hResult]

theorem syntaxTree_of_readAll {source : String} {tree : Subtree}
    (hAll : readAll source.toList = .ok tree) : syntaxTree source = .ok tree.toNode := by
  obtain ⟨all, hFun⟩ : ∃ f, f = readAll := ⟨_, rfl⟩
  obtain ⟨syntaxOf, hSyntax⟩ : ∃ f, f = syntaxTree := ⟨_, rfl⟩
  rw [← hSyntax]
  delta syntaxTree at hSyntax
  rw [← hFun] at hAll hSyntax
  subst hSyntax
  dsimp only
  rw [hAll]

theorem parse_of_syntaxTree {source : String} {tree : Node} (hTree : syntaxTree source = .ok tree) :
    parse source = .ok tree.reduce := by
  obtain ⟨syntaxOf, hSyntax⟩ : ∃ f, f = syntaxTree := ⟨_, rfl⟩
  rw [parse]
  rw [← hSyntax] at hTree ⊢
  rw [hTree]
  rfl

/-- A text of blanks is the program without statements. -/
theorem parse_of_isBlank {source : String} (hBlank : IsBlank source.toList) :
    parse source = .ok [] := by
  obtain ⟨span, weight, hAll⟩ := readAll_of_isBlank hBlank
  rw [parse_of_syntaxTree (syntaxTree_of_readAll hAll)]
  rfl

end Reanalysis.Script
