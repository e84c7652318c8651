import Reanalysis.Proofs.Script.Symbols

/-!
# The state before a text

Before anything is read, only tokens that may come first are looked for. At the end of the text the
empty program is all that can be finished, and behind it nothing more is expected.
-/

namespace Reanalysis.Script

/-! ## What may come first -/

/-- Tokens start with themselves, and no phrase that may come first starts with an inner token. -/
structure Regular (firsts : Array Nat) : Prop where
  token : ∀ t ∈ Token.all.toList, ∀ i, (firsts.getD t.code 0).testBit i = true → i = t.code
  phrase : ∀ p : Phrase, p.isInner = false → ∀ t : Token, t.isInner = true →
    (firsts.getD p.code 0).testBit t.code = false

theorem testBit_lor (a b i : Nat) : (Nat.lor a b).testBit i = (a.testBit i || b.testBit i) :=
  Nat.testBit_or a b i

theorem isPhrase_code (p : Phrase) : isPhrase p.code = true := by
  rw [isPhrase, Phrase.code]
  exact decide_eq_true (Nat.le_add_right _ _)

theorem testBit_bit (t : Token) (i : Nat) : t.bit.testBit i = decide (t.code = i) := by
  rw [Token.bit, Nat.shiftLeft_eq', Nat.one_shiftLeft, Nat.testBit_two_pow]

namespace Regular

variable {firsts : Array Nat}

theorem testBit_of_symbol (h : Regular firsts) {s : Symbol} (hKnown : s.IsKnown)
    (hOuter : s.isInner = false) {t : Token} (hInner : t.isInner = true) :
    (firsts.getD s.code 0).testBit t.code = false := by
  cases s with
  | token u =>
    rw [Symbol.code]
    by_contra hBit
    have hCode := h.token u hKnown t.code (eq_true_of_ne_false hBit)
    obtain rfl := Token.code_inj hKnown hCode.symm
    rw [Symbol.isInner] at hOuter
    exact Bool.false_ne_true (hOuter.symm.trans hInner)
  | phrase p =>
    rw [Symbol.code]
    exact h.phrase p hOuter t hInner

theorem widen (h : Regular firsts) {production : Production} {r : Nat} {s : Symbol}
    (hThere : Production.all[r]? = some production) (hKnown : s.IsKnown)
    (hStart : production.phrase.isInner = true ∨ s.isInner = false) :
    Regular (firsts.modify (left r) fun set => Nat.lor set (firsts.getD s.code 0)) := by
  rw [left_of_getElem? hThere]
  constructor
  · intro t hMem i hBit
    rw [getD_modify] at hBit
    · exact h.token t hMem i hBit
    · intro hSame
      have hSymbol := Symbol.code_inj (x := .phrase production.phrase) (y := .token t) trivial hMem
        (by rw [Symbol.code, Symbol.code, hSame])
      cases hSymbol
  · intro p hOuter t hInner
    by_cases hSame : production.phrase.code = p.code
    · obtain rfl := Phrase.code_inj hSame
      have hStart : s.isInner = false := hStart.resolve_left (by simp [hOuter])
      have hOwn := h.phrase _ hOuter t hInner
      have hNew := h.testBit_of_symbol hKnown hStart hInner
      rw [Array.getD_eq_getD_getElem?] at hOwn
      rw [Array.getD_eq_getD_getElem?, Array.getElem?_modify, if_pos rfl]
      cases hSet : firsts[production.phrase.code]? with
      | none => exact Nat.zero_testBit _
      | some set =>
        rw [hSet, Option.getD_some] at hOwn
        rw [Option.map_some, Option.getD_some, testBit_lor, hOwn, hNew, Bool.false_or]
    · rw [getD_modify hSame]
      exact h.phrase p hOuter t hInner

theorem widenFirsts (h : Regular firsts) : Regular (widenFirsts firsts) := by
  rw [Script.widenFirsts, ← Array.foldl_toList]
  refine List.foldlRecOn (motive := Regular) _ _ h fun firsts h r _ => ?_
  split
  · rename_i x hFirst
    obtain ⟨production, s, hThere, rfl, hKnown, hStart, -⟩ := exists_of_first hFirst
    exact h.widen hThere hKnown hStart
  · exact h

theorem settle (h : Regular firsts) (fuel : Nat) : Regular (settle Script.widenFirsts fuel firsts) := by
  induction fuel generalizing firsts with
  | zero => exact h
  | succ fuel ih =>
    rw [Script.settle]
    split
    · exact h
    · exact ih h.widenFirsts

end Regular

theorem isPhrase_token {t : Token} (hMem : t ∈ Token.all.toList) : isPhrase t.code = false := by
  rw [isPhrase]
  exact decide_eq_false (Nat.not_le.mpr (Token.code_lt hMem))

theorem regular_initial (n : Nat) :
    Regular ((Array.range n).map fun x => if isPhrase x then 0 else Nat.shiftLeft 1 x) := by
  have hGet : ∀ x, ((Array.range n).map fun x => if isPhrase x then 0 else Nat.shiftLeft 1 x).getD x 0 =
      if x < n then (if isPhrase x then 0 else Nat.shiftLeft 1 x) else 0 := by
    intro x
    rw [Array.getD_eq_getD_getElem?, Array.getElem?_map, Array.getElem?_range]
    by_cases hx : x < n
    · rw [if_pos hx, if_pos hx, Option.map_some, Option.getD_some]
    · rw [if_neg hx, if_neg hx, Option.map_none, Option.getD_none]
  constructor
  · intro t hMem i hBit
    rw [hGet, isPhrase_token hMem, if_neg Bool.false_ne_true, ← Token.bit] at hBit
    split at hBit
    · rw [testBit_bit] at hBit
      exact (of_decide_eq_true hBit).symm
    · rw [Nat.zero_testBit] at hBit
      cases hBit
  · intro p hOuter t hInner
    rw [hGet, isPhrase_code, if_pos rfl, ite_self, Nat.zero_testBit]

theorem regular_firstTokens : Regular firstTokens := by
  rw [firstTokens]
  exact (regular_initial symbolCount).settle symbolCount

theorem testBit_first_program {t : Token} (hInner : t.isInner = true) :
    (first Phrase.program.code).testBit t.code = false := by
  rw [first]
  exact regular_firstTokens.phrase .program rfl t hInner

/-! ## The first state -/

section Entries

variable {e : Entry} {r d x : Nat}

theorem next?_of (hProduction : e.production = r) (hDot : e.dot = d) : e.next? = (row r)[d]? := by
  obtain ⟨next, hNext⟩ : ∃ next, next = Entry.next? := ⟨_, rfl⟩
  rw [← hNext]
  delta Entry.next? at hNext
  subst hNext hProduction hDot
  beta_reduce
  exact Eq.refl _

theorem afterNext_of_none (h : (row e.production)[e.dot + 1]? = none) : e.afterNext = e.followers := by
  obtain ⟨after, hAfter⟩ : ∃ after, after = Entry.afterNext := ⟨_, rfl⟩
  rw [← hAfter]
  delta Entry.afterNext at hAfter
  subst hAfter
  beta_reduce
  rw [h]

theorem expected_of_some (h : e.next? = some x) : e.expected = first x := by
  obtain ⟨expected, hExpected⟩ : ∃ expected, expected = Entry.expected := ⟨_, rfl⟩
  rw [← hExpected]
  delta Entry.expected at hExpected
  subst hExpected
  beta_reduce
  rw [h]

end Entries

theorem getElem?_single {α : Type} (a : α) :
    #[a][0]? = some a ∧ #[a][0 + 1]? = none ∧ #[a][1]? = none := ⟨rfl, rfl, rfl⟩

theorem next?_zero (followers : Nat) : (Entry.mk 0 0 followers).next? = some Phrase.program.code := by
  rw [next?_of rfl rfl, row_zero, (getElem?_single _).1]

theorem next?_one (followers : Nat) : (Entry.mk 0 1 followers).next? = none := by
  rw [next?_of rfl rfl, row_zero, (getElem?_single _).2.2]

theorem le_foldl_max {α : Type} (f : α → Nat) (as : List α) (n : Nat) :
    n ≤ as.foldl (fun n a => max n (f a)) n := by
  induction as generalizing n with
  | nil => exact Nat.le_refl n
  | cons a as ih => exact Nat.le_trans (Nat.le_max_left n (f a)) (ih _)

theorem program_lt_symbolCount : Phrase.program.code < symbolCount := by
  obtain ⟨a, b, c, rest, hAll, -⟩ := Production.exists_all_eq
  have hWhole : Production.whole.phrase = .program := rfl
  have hMax := le_foldl_max (fun r : Production => r.phrase.code + 1) (a :: b :: c :: .empty :: rest)
    (max tokenCount (Phrase.program.code + 1))
  rw [symbolCount, ← Array.foldl_toList, hAll, List.foldl_cons, hWhole]
  have hOwn : Phrase.program.code + 1 ≤ max tokenCount (Phrase.program.code + 1) := Nat.le_max_right _ _
  exact Nat.lt_of_lt_of_le (Nat.lt_add_one _) (Nat.le_trans hOwn hMax)

section Heads

variable {x : Nat} {known : List Nat × Array Nat}

theorem getD_allow {y more : Nat} (h : y ≠ x) :
    (allow y more known).2.getD x 0 = known.2.getD x 0 := by
  rw [allow]
  split
  · rfl
  · rw [Array.getD_eq_getD_getElem?, Array.getElem?_setIfInBounds, if_neg h,
      ← Array.getD_eq_getD_getElem?]

theorem getD_allow_self {more n : Nat} (hMore : more ≠ 0) (hLt : x < n) :
    (allow x more ([], Array.replicate n 0)).2.getD x 0 = more := by
  have hNone : Nat.lor 0 more = more := Nat.zero_or more
  rw [allow]
  dsimp only
  rw [getD_replicate, hNone, if_neg hMore, Array.getD_eq_getD_getElem?, Array.getElem?_setIfInBounds,
    if_pos rfl, Array.size_replicate, if_pos hLt, Option.getD_some]

theorem getD_follow {y : Nat} (hCorners : ∀ c ∈ corners y, c.phrase ≠ x) :
    (follow y known).2.getD x 0 = known.2.getD x 0 := by
  rw [follow]
  exact List.foldlRecOn (motive := fun more : _ × Array Nat => more.2.getD x 0 = known.2.getD x 0)
    _ _ rfl fun _ hMore c hc => (getD_allow (hCorners c hc)).trans hMore

theorem getD_spread (hCorners : ∀ y, ∀ c ∈ corners y, c.phrase ≠ x) (fuel : Nat) :
    (spread fuel known).getD x 0 = known.2.getD x 0 := by
  induction fuel generalizing known with
  | zero => rfl
  | succ fuel ih =>
    rw [spread]
    split
    · rfl
    · rw [ih, getD_follow (hCorners _)]

end Heads

theorem start_of_some {e : Entry} {x : Nat} {known : List Nat × Array Nat} (hNext : e.next? = some x)
    (hPhrase : isPhrase x = true) : Entry.start known e = allow x e.afterNext known := by
  obtain ⟨start, hStart⟩ : ∃ start, start = Entry.start := ⟨_, rfl⟩
  rw [← hStart]
  delta Entry.start at hStart
  subst hStart
  beta_reduce
  rw [hNext]
  exact if_pos hPhrase

theorem bit_endOfText : Token.endOfText.bit = 1 := by
  rw [Token.bit, Token.code_endOfText]
  rfl

section Start

variable {n f : Nat}

theorem afterNext_zero : (Entry.mk 0 0 f).afterNext = f := by
  refine afterNext_of_none ?_
  have hProduction : (Entry.mk 0 0 f).production = 0 := rfl
  have hDot : (Entry.mk 0 0 f).dot = 0 := rfl
  rw [hProduction, hDot, row_zero, (getElem?_single _).2.1]

theorem heads_program (hf : f ≠ 0) : (headsOf [⟨0, 0, f⟩]).getD Phrase.program.code 0 = f := by
  rw [headsOf, getD_spread fun y => phrase_ne_of_mem_corners, List.foldl_cons, List.foldl_nil,
    start_of_some (next?_zero f) (isPhrase_code _), afterNext_zero,
    getD_allow_self hf program_lt_symbolCount]

theorem heads_ofKernel (kernel : List Entry) : (State.ofKernel n kernel).heads = headsOf kernel := by
  rw [State.ofKernel]

theorem sought_ofKernel (kernel : List Entry) :
    (State.ofKernel n kernel).sought = soughtTokens kernel (State.ofKernel n kernel).expected := by
  rw [State.ofKernel]

theorem expected_ofKernel (kernel : List Entry) : (State.ofKernel n kernel).expected =
    Nat.lor (Nat.lor (kernel.foldl (fun set e => Nat.lor set e.expected) 0)
      (emptyProductions.foldl (fun set r => Nat.lor set ((headsOf kernel).getD (left r) 0)) 0))
      (Nat.lor Token.comment.bit Token.pageComment.bit) := by
  rw [State.ofKernel]

theorem testBit_expected (hf : f ≠ 0) (i : Nat) : (State.ofKernel n [⟨0, 0, f⟩]).expected.testBit i =
    ((first Phrase.program.code).testBit i || f.testBit i ||
      (Token.comment.bit.testBit i || Token.pageComment.bit.testBit i)) := by
  rw [expected_ofKernel, testBit_lor, testBit_lor, testBit_lor, emptyProductions_eq, List.foldl_cons,
    List.foldl_nil, List.foldl_cons, List.foldl_nil, testBit_lor, testBit_lor, left_four,
    heads_program hf, expected_of_some (next?_zero f), Nat.zero_testBit, Bool.false_or, Bool.false_or]

end Start

/-- Nothing has been read. -/
structure State.Opens (s : State) : Prop where
  kernel : ∃ f, s.kernel = [⟨0, 0, f⟩]
  program : s.heads.getD Phrase.program.code 0 = 1
  endOfText : s.expects .endOfText = true
  outer : ∀ t : Token, t.isInner = true → s.expects t = false
  sought : ∀ t ∈ s.sought, t.isImmediate = false

theorem Token.isInner_of_isImmediate {t : Token} (h : t.isImmediate = true) : t.isInner = true := by
  rw [isInner, h]
  rfl

theorem testBit_bit_of_isInner {t u : Token} (hMem : u ∈ Token.all.toList) (hOuter : u.isInner = false)
    (hInner : t.isInner = true) : u.bit.testBit t.code = false := by
  rw [testBit_bit, decide_eq_false_iff_not]
  intro hCode
  rw [Token.code_inj hMem hCode, hInner] at hOuter
  cases hOuter

theorem opens_start : Automaton.start.Opens := by
  rw [Automaton.start, Production.wholeNumber]
  generalize hf : Token.endOfText.bit = f
  have hOne : f = 1 := hf.symm.trans bit_endOfText
  have hNe : f ≠ 0 := hOne ▸ Nat.one_ne_zero
  have hMem : ∀ t ∈ [Token.endOfText, .comment, .pageComment], t ∈ Token.all.toList := fun t =>
    Token.continues_all.mem
  have hOuter : ∀ t : Token, t.isInner = true → (State.ofKernel 0 [⟨0, 0, f⟩]).expects t = false := by
    intro t hInner
    rw [State.expects, hasToken, testBit_expected hNe, testBit_first_program hInner, ← hf,
      testBit_bit_of_isInner (hMem _ (by decide)) rfl hInner,
      testBit_bit_of_isInner (hMem _ (by decide)) rfl hInner,
      testBit_bit_of_isInner (hMem _ (by decide)) rfl hInner]
    rfl
  refine ⟨⟨f, rfl⟩, ?_, ?_, hOuter, fun t hSought => ?_⟩
  · rw [heads_ofKernel, heads_program hNe]
    exact hOne
  · rw [State.expects, hasToken, testBit_expected hNe, ← hf, testBit_bit, decide_eq_true rfl]
    simp
  · by_contra hImmediate
    have hInner := Token.isInner_of_isImmediate (eq_true_of_ne_false hImmediate)
    have hName : t ≠ .name := by
      rintro rfl
      exact hImmediate rfl
    rw [sought_ofKernel, soughtTokens, List.mem_filter, if_neg hName, Bool.and_eq_true] at hSought
    have hExpected := hOuter t hInner
    rw [State.expects, hSought.2.1] at hExpected
    cases hExpected

/-! ## Decisions -/

theorem foremost_single (r : Nat) : foremost [r] = [r] := by
  rw [foremost, List.foldl_cons, List.foldl_nil, if_pos List.isEmpty_nil]

theorem State.decide_of_finished {s : State} {t r : Nat} (hFinished : s.finished t = [r])
    (hLast : s.hasSuccessor t = false) : s.decide t = ⟨[r], false⟩ := by
  rw [State.decide, hFinished, hLast, foremost_single]
  rfl

theorem State.finished_of_next? {s : State} {e : Entry} {t x r : Nat} (hKernel : s.kernel = [e])
    (hNext : e.next? = some x) (hEmpty : emptyProductions = [r])
    (hHead : (s.heads.getD (left r) 0).testBit t = true) : s.finished t = [r] := by
  have hUnread : ¬ (e.next?.isNone && e.production ≠ Production.wholeNumber &&
      e.followers.testBit t) = true := by
    rw [hNext, Option.isNone_some, Bool.false_and, Bool.false_and]
    exact Bool.false_ne_true
  rw [State.finished, hKernel, hEmpty, List.filterMap_cons_none, List.filterMap_nil, List.nil_append,
    List.filter_cons_of_pos, List.filter_nil]
  · exact hHead
  · exact if_neg hUnread

theorem State.hasSuccessor_of_next? {s : State} {e : Entry} {t x : Nat} (hKernel : s.kernel = [e])
    (hNext : e.next? = some x) (hNe : x ≠ t) (hOpening : opening t = []) :
    s.hasSuccessor t = false := by
  simp [State.hasSuccessor, hKernel, hNext, hNe, hOpening]

namespace State.Opens

variable {s : State}

theorem finished_endOfText (h : s.Opens) : s.finished Token.endOfText.code = [4] := by
  obtain ⟨f, hKernel⟩ := h.kernel
  have hBit : Nat.testBit 1 0 = true := rfl
  have hHead : (s.heads.getD (left 4) 0).testBit Token.endOfText.code = true := by
    rw [left_four, h.program, Token.code_endOfText, hBit]
  exact finished_of_next? hKernel (next?_zero f) emptyProductions_eq hHead

theorem hasSuccessor_endOfText (h : s.Opens) : s.hasSuccessor Token.endOfText.code = false := by
  obtain ⟨f, hKernel⟩ := h.kernel
  have hThere : Token.endOfText ∈ Token.all.toList := Token.continues_all.mem (by decide)
  have hNe : Phrase.program.code ≠ Token.endOfText.code := by
    intro hSame
    have hLt := Token.code_lt hThere
    rw [← hSame, Phrase.code] at hLt
    omega
  exact hasSuccessor_of_next? hKernel (next?_zero f) hNe (opening_eq_nil (.inr rfl))

theorem decide_endOfText (h : s.Opens) : s.decide Token.endOfText.code = ⟨[4], false⟩ :=
  decide_of_finished h.finished_endOfText h.hasSuccessor_endOfText

theorem isFinal_eq_false (h : s.Opens) : s.isFinal = false := by
  obtain ⟨f, hKernel⟩ := h.kernel
  rw [isFinal, hKernel, List.any_cons, List.any_nil, next?_zero, Option.isNone_some, Bool.and_false,
    Bool.false_or]

theorem successor_program (h : s.Opens) : ∃ f, s.successor Phrase.program.code = [⟨0, 1, f⟩] := by
  obtain ⟨f, hKernel⟩ := h.kernel
  refine ⟨f, ?_⟩
  rw [successor, hKernel, opening_eq_nil (.inl rfl), List.filterMap_nil, List.append_nil,
    List.filter_cons, List.filter_nil, next?_zero, decide_eq_true rfl]
  rfl

end State.Opens

theorem isFinal_ofKernel (n f : Nat) : (State.ofKernel n [⟨0, 1, f⟩]).isFinal = true := by
  have hKernel : (State.ofKernel n [⟨0, 1, f⟩]).kernel = [⟨0, 1, f⟩] := by rw [State.ofKernel]
  rw [State.isFinal, hKernel, List.any_cons, List.any_nil, next?_one]
  rfl

theorem Automaton.goto_of_new {a : Automaton} {s : State} {x : Nat}
    (hEdge : a.edges[(s.number, x)]? = none) (hState : a.states[s.successor x]? = none) :
    (a.goto s x).1 = State.ofKernel a.states.size (s.successor x) := by
  rw [Automaton.goto, hEdge]
  dsimp only
  rw [hState]

theorem isFinal_goto_program :
    (Automaton.initial.goto Automaton.start Phrase.program.code).1.isFinal = true := by
  obtain ⟨f, hSuccessor⟩ := opens_start.successor_program
  obtain ⟨g, hKernel⟩ := opens_start.kernel
  have hEdge : Automaton.initial.edges[(Automaton.start.number, Phrase.program.code)]? = none := by
    rw [Automaton.initial, Std.HashMap.getElem?_empty]
  have hState : Automaton.initial.states[Automaton.start.successor Phrase.program.code]? = none := by
    rw [Automaton.initial, hSuccessor, hKernel, Std.HashMap.getElem?_insert, if_neg,
      Std.HashMap.getElem?_empty]
    simp
  rw [Automaton.goto_of_new hEdge hState, hSuccessor]
  exact isFinal_ofKernel _ f

end Reanalysis.Script
