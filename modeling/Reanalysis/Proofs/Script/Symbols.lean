import Mathlib.Data.List.Nodup
import Reanalysis.Script.Automaton

/-!
# The symbols of the grammar

Every symbol has a number of its own. One production is empty, and it is a program. No other one starts
with a program, with the end of a text, or, outside of its kind, with a token that needs another one
before it.
-/

namespace Reanalysis.Script

/-! ## Productions -/

/-- Tokens that have others before them. -/
def Token.isInner (t : Token) : Bool := t.isImmediate || t = .omittedSemicolon || t = .questionMark

def Phrase.isInner (p : Phrase) : Bool :=
  p = .doubleQuotedParts || p = .singleQuotedParts || p = .templateParts || p = .elementChildren ||
    p = .doubleAttributeParts || p = .singleAttributeParts

def Symbol.isInner : Symbol → Bool
  | .token t => t.isInner
  | .phrase p => p.isInner

namespace Production

variable {r : Nat} {production : Production}

/-- Starts with a symbol that is no whole program, and with an inner one only inside of its kind. -/
def isRegular (production : Production) : Bool :=
  match production.steps with
  | [] => false
  | s :: _ => s.symbol ≠ .phrase .program && s.symbol ≠ .token .endOfText &&
      (production.phrase.isInner || !s.symbol.isInner)

theorem isRegular_of_mem {p : Phrase} (hPhrase : p ≠ .program) (hMem : production ∈ p.productions) :
    production.isRegular = true := by
  have hAll : ∀ n : Fin 126, Phrase.ofNat n = .program ∨
      (Phrase.ofNat n).productions.all isRegular = true := by
    decide +kernel
  have hBound : p.ctorIdx < 126 := by cases p <;> decide
  have hOwn := hAll ⟨p.ctorIdx, hBound⟩
  rw [Phrase.ofNat_ctorIdx] at hOwn
  exact List.all_eq_true.mp (hOwn.resolve_left hPhrase) production hMem

theorem collect_eq_append (fuel : Nat) {waiting seen : List Phrase} (found : List Production)
    (hSeen : .program ∈ seen) :
    ∃ rest, collect fuel waiting seen found = found ++ rest ∧ ∀ p ∈ rest, p.isRegular = true := by
  induction fuel generalizing waiting seen found with
  | zero => exact ⟨[], by simp [collect]⟩
  | succ fuel ih =>
    cases waiting with
    | nil => exact ⟨[], by simp [collect]⟩
    | cons p waiting =>
      rw [collect]
      split
      · exact ih found hSeen
      · rename_i hNew
        obtain ⟨rest, hRest, hRegular⟩ := ih (found ++ p.productions) (List.mem_cons_of_mem p hSeen)
        refine ⟨p.productions ++ rest, by rw [hRest, List.append_assoc], fun q hq => ?_⟩
        rcases List.mem_append.mp hq with hOwn | hOther
        · refine isRegular_of_mem ?_ hOwn
          rintro rfl
          exact hNew (List.contains_iff_mem.mpr hSeen)
        · exact hRegular q hOther

def empty : Production := ⟨.program, [], none, none, 0⟩

theorem productions_program : ∃ a b c, Phrase.program.productions = [a, b, c, empty] ∧
    ∀ p ∈ [a, b, c], p.isRegular = true := ⟨_, _, _, rfl, by decide⟩

theorem exists_all_eq : ∃ a b c rest, all.toList = whole :: a :: b :: c :: empty :: rest ∧
    ∀ p ∈ [a, b, c] ++ rest, p.isRegular = true := by
  obtain ⟨a, b, c, hProgram, hFirst⟩ := productions_program
  have hNew : ([] : List Phrase).contains .program = false := rfl
  have hAll : all.toList = whole :: collect (9999 + 1) [.program] [] [] := rfl
  rw [collect, hNew, if_neg Bool.false_ne_true] at hAll
  obtain ⟨rest, hRest, hRegular⟩ := collect_eq_append 9999 ([] ++ Phrase.program.productions)
    (List.mem_singleton_self Phrase.program)
  refine ⟨a, b, c, rest, ?_, ?_⟩
  · rw [hAll, hRest, hProgram]
    rfl
  · exact List.forall_mem_append.mpr ⟨hFirst, hRegular⟩

theorem getElem?_zero : all[0]? = some whole := by
  obtain ⟨a, b, c, rest, hAll, -⟩ := exists_all_eq
  rw [← Array.getElem?_toList, hAll]
  rfl

theorem getElem?_four : all[4]? = some empty := by
  obtain ⟨a, b, c, rest, hAll, -⟩ := exists_all_eq
  rw [← Array.getElem?_toList, hAll]
  rfl

theorem isRegular_of_getElem? (hWhole : r ≠ 0) (hEmpty : r ≠ 4) (hThere : all[r]? = some production) :
    production.isRegular = true := by
  obtain ⟨a, b, c, rest, hAll, hRegular⟩ := exists_all_eq
  rw [← Array.getElem?_toList, hAll] at hThere
  refine hRegular production ?_
  match r with
  | 0 => exact absurd rfl hWhole
  | 1 | 2 | 3 =>
    cases hThere
    simp
  | 4 => exact absurd rfl hEmpty
  | r + 5 =>
    simp only [List.getElem?_cons_succ] at hThere
    simp [List.mem_of_getElem? hThere]

end Production

/-! ## Numbers of symbols -/

namespace Token

variable {t u : Token}

/-- Goes on with tokens that are new. -/
def Continues (found found' : List Token) : Prop :=
  ∃ more, found' = found ++ more ∧ (found.Nodup → found'.Nodup)

theorem Continues.refl (found : List Token) : Continues found found := ⟨[], by simp⟩

theorem Continues.trans {a b c : List Token} (hFirst : Continues a b) (hSecond : Continues b c) :
    Continues a c := by
  obtain ⟨more, rfl, hNodup⟩ := hFirst
  obtain ⟨rest, rfl, hNodup'⟩ := hSecond
  exact ⟨more ++ rest, List.append_assoc _ _ _, fun h => hNodup' (hNodup h)⟩

theorem Continues.mem {a b : List Token} (h : Continues a b) (hMem : t ∈ a) : t ∈ b := by
  obtain ⟨more, rfl, -⟩ := h
  exact List.mem_append_left more hMem

theorem continues_foldl {α : Type} {f : Array Token → α → Array Token}
    (hf : ∀ found a, Continues found.toList (f found a).toList) (as : List α) (found : Array Token) :
    Continues found.toList (as.foldl f found).toList := by
  induction as generalizing found with
  | nil => exact .refl _
  | cons a as ih => exact (hf found a).trans (ih (f found a))

theorem mem_foldl {α : Type} {f : Array Token → α → Array Token}
    (hf : ∀ found a, Continues found.toList (f found a).toList) {as : List α} {a : α} (ha : a ∈ as)
    (hMem : ∀ found, t ∈ (f found a).toList) (found : Array Token) : t ∈ (as.foldl f found).toList := by
  obtain ⟨before, after, rfl⟩ := List.mem_iff_append.mp ha
  rw [List.foldl_append, List.foldl_cons]
  exact (continues_foldl hf after _).mem (hMem _)

def addStep (found : Array Token) (s : Step) : Array Token :=
  match s.symbol with
  | .token t => if found.contains t then found else found.push t
  | .phrase _ => found

def addProduction (found : Array Token) (p : Production) : Array Token := p.steps.foldl addStep found

theorem all_eq_foldl :
    Token.all = Production.all.toList.foldl addProduction #[.endOfText, .comment, .pageComment] :=
  (Array.foldl_toList _).symm

theorem continues_addStep (found : Array Token) (s : Step) :
    Continues found.toList (addStep found s).toList := by
  rw [addStep]
  split
  · split
    · exact .refl _
    · rename_i t _ hNew
      refine ⟨[t], by simp, fun hNodup => ?_⟩
      rw [Array.toList_push, List.nodup_append]
      refine ⟨hNodup, List.nodup_singleton t, ?_⟩
      rintro a ha b hb rfl
      rw [List.mem_singleton.mp hb] at ha
      exact hNew (by simpa using ha)
  · exact .refl _

theorem continues_addProduction (found : Array Token) (p : Production) :
    Continues found.toList (addProduction found p).toList :=
  continues_foldl continues_addStep p.steps found

theorem continues_all : Continues [.endOfText, .comment, .pageComment] Token.all.toList := by
  have hAll := continues_foldl continues_addProduction Production.all.toList
    #[.endOfText, .comment, .pageComment]
  rwa [← all_eq_foldl] at hAll

theorem nodup_all : Token.all.toList.Nodup := by
  obtain ⟨_, -, hNodup⟩ := continues_all
  exact hNodup (by decide)

theorem mem_addStep (found : Array Token) {s : Step} (hToken : s.symbol = .token t) :
    t ∈ (addStep found s).toList := by
  rw [addStep, hToken]
  dsimp only
  split
  · rename_i hThere
    simpa using hThere
  · simp

theorem mem_all {production : Production} {s : Step} (hMem : production ∈ Production.all.toList)
    (hStep : s ∈ production.steps) (hToken : s.symbol = .token t) : t ∈ Token.all.toList := by
  have hOwn : ∀ found, t ∈ (addProduction found production).toList :=
    mem_foldl continues_addStep hStep fun found => mem_addStep found hToken
  have hAll := mem_foldl continues_addProduction hMem hOwn #[.endOfText, .comment, .pageComment]
  rwa [← all_eq_foldl] at hAll

theorem getD_foldl_insert {ts : List Token} (hNodup : ts.Nodup) (n : Nat) (m : Std.HashMap Token Nat)
    (d : Nat) : ((ts.zipIdx n).foldl (fun m (t, i) => m.insert t i) m).getD t d =
      if t ∈ ts then n + ts.idxOf t else m.getD t d := by
  induction ts generalizing n m with
  | nil => simp
  | cons u ts ih =>
    obtain ⟨hNew, hNodup⟩ := List.nodup_cons.mp hNodup
    rw [List.zipIdx_cons, List.foldl_cons, ih hNodup, Std.HashMap.getD_insert]
    by_cases hMem : t ∈ ts
    · have hNe : u ≠ t := fun h => hNew (h ▸ hMem)
      simp [hMem, List.idxOf_cons_ne _ hNe]
      omega
    · by_cases hSame : u = t
      · subst hSame
        simp [hMem]
      · simp [hMem, hSame, Ne.symm hSame]

theorem code_eq_idxOf (t : Token) : t.code = Token.all.toList.idxOf t := by
  rw [code, codes, getD_foldl_insert nodup_all]
  split
  · simp
  · rename_i hMem
    simp [List.idxOf_eq_length_iff.mpr hMem]

theorem code_lt (h : t ∈ Token.all.toList) : t.code < tokenCount := by
  rw [code_eq_idxOf, tokenCount, ← Array.length_toList]
  exact List.idxOf_lt_length_of_mem h

theorem code_inj (h : t ∈ Token.all.toList) (hCode : t.code = u.code) : t = u := by
  rw [code_eq_idxOf, code_eq_idxOf] at hCode
  exact (List.idxOf_inj h).mp hCode

theorem code_endOfText : Token.endOfText.code = 0 := by
  obtain ⟨more, hAll, -⟩ := continues_all
  rw [code_eq_idxOf, hAll]
  simp

end Token

theorem Phrase.code_inj {p q : Phrase} (h : p.code = q.code) : p = q := by
  rw [Phrase.code, Phrase.code] at h
  have hIndex : p.ctorIdx = q.ctorIdx := Nat.add_left_cancel h
  rw [← Phrase.ofNat_ctorIdx p, hIndex, Phrase.ofNat_ctorIdx]

def Symbol.IsKnown : Symbol → Prop
  | .token t => t ∈ Token.all.toList
  | .phrase _ => True

theorem Symbol.code_inj {x y : Symbol} (hx : x.IsKnown) (hy : y.IsKnown) (h : x.code = y.code) :
    x = y := by
  cases x with
  | token t =>
    rw [Symbol.code] at h
    have hLt := Token.code_lt hx
    cases y with
    | token u =>
      rw [Symbol.code] at h
      rw [Token.code_inj hx h]
    | phrase q =>
      rw [h, Symbol.code, Phrase.code] at hLt
      omega
  | phrase p =>
    rw [Symbol.code] at h
    cases y with
    | token u =>
      rw [Symbol.code] at h
      have hLt := Token.code_lt hy
      rw [← h, Phrase.code] at hLt
      omega
    | phrase q =>
      rw [Symbol.code] at h
      rw [Phrase.code_inj h]

/-! ## Rows -/

section Rows

variable {r x : Nat} {production : Production}

theorem row_of_getElem? (h : Production.all[r]? = some production) :
    row r = (production.steps.map (·.symbol.code)).toArray := by
  rw [row, Array.getD_eq_getD_getElem?, rows, Array.getElem?_map, h]
  rfl

theorem left_of_getElem? (h : Production.all[r]? = some production) :
    left r = production.phrase.code := by
  rw [left, Array.getD_eq_getD_getElem?, lefts, Array.getElem?_map, h]
  rfl

theorem row_zero : row 0 = #[Phrase.program.code] := by
  rw [row_of_getElem? Production.getElem?_zero, Production.whole, List.map_singleton, Symbol.code]

theorem row_four : row 4 = #[] := by
  rw [row_of_getElem? Production.getElem?_four, Production.empty, List.map_nil]

theorem left_four : left 4 = Phrase.program.code := by
  rw [left_of_getElem? Production.getElem?_four, Production.empty]

/-- What a production may start with. -/
theorem exists_of_first (h : (row r)[0]? = some x) :
    ∃ (production : Production) (s : Symbol), Production.all[r]? = some production ∧ x = s.code ∧
      s.IsKnown ∧ (production.phrase.isInner = true ∨ s.isInner = false) ∧
      (r ≠ 0 → s ≠ .phrase .program ∧ s ≠ .token .endOfText) := by
  cases hThere : Production.all[r]? with
  | none =>
    rw [row, Array.getD_eq_getD_getElem?, rows, Array.getElem?_map, hThere] at h
    simp at h
  | some production =>
    rw [row_of_getElem? hThere] at h
    cases hSteps : production.steps with
    | nil =>
      rw [hSteps] at h
      simp at h
    | cons s rest =>
      rw [hSteps] at h
      have hMem : production ∈ Production.all.toList := by
        rw [← Array.getElem?_toList] at hThere
        exact List.mem_of_getElem? hThere
      have hKnown : s.symbol.IsKnown := by
        cases hSymbol : s.symbol with
        | token t => exact Token.mem_all hMem (hSteps ▸ List.mem_cons_self) hSymbol
        | phrase p => trivial
      refine ⟨production, s.symbol, rfl, by simpa using h.symm, hKnown, ?_⟩
      by_cases hWhole : r = 0
      · subst hWhole
        rw [Production.getElem?_zero] at hThere
        cases hThere
        cases hSteps
        exact ⟨.inr rfl, fun hNe => absurd rfl hNe⟩
      · have hEmpty : r ≠ 4 := by
          rintro rfl
          rw [Production.getElem?_four] at hThere
          cases hThere
          cases hSteps
        have hRegular := Production.isRegular_of_getElem? hWhole hEmpty hThere
        rw [Production.isRegular, hSteps] at hRegular
        simp only [Bool.and_eq_true, Bool.or_eq_true, Bool.not_eq_true', ne_eq, decide_not,
          decide_eq_false_iff_not] at hRegular
        exact ⟨hRegular.2, fun _ => hRegular.1⟩

theorem ne_code_of_first (hWhole : r ≠ 0) (h : (row r)[0]? = some x) :
    x ≠ Phrase.program.code ∧ x ≠ Token.endOfText.code := by
  obtain ⟨production, s, -, rfl, hKnown, -, hOther⟩ := exists_of_first h
  obtain ⟨hProgram, hEnd⟩ := hOther hWhole
  constructor
  · intro hSame
    refine hProgram (Symbol.code_inj hKnown trivial ?_)
    rw [hSame, Symbol.code]
  · intro hSame
    have hThere : Token.endOfText ∈ Token.all.toList := Token.continues_all.mem (by decide)
    refine hEnd (Symbol.code_inj hKnown hThere ?_)
    rw [hSame, Symbol.code]

theorem isEmpty_row_iff (hr : r < rows.size) : (row r).isEmpty = true ↔ r = 4 := by
  constructor
  · intro hEmpty
    by_contra hNe
    by_cases hWhole : r = 0
    · simp [hWhole, row_zero] at hEmpty
    · have hLt : r < Production.all.size := by simpa [rows] using hr
      have hThere : Production.all[r]? = some Production.all[r] := Array.getElem?_eq_getElem hLt
      have hRegular := Production.isRegular_of_getElem? hWhole hNe hThere
      rw [row_of_getElem? hThere] at hEmpty
      rw [Production.isRegular] at hRegular
      split at hRegular
      · cases hRegular
      · rename_i hSteps
        simp [hSteps] at hEmpty
  · rintro rfl
    simp [row_four]

theorem emptyProductions_eq : emptyProductions = [4] := by
  have hLt : 4 < rows.size := by
    have hThere : 4 < Production.all.size := (Array.getElem?_eq_some_iff.mp Production.getElem?_four).1
    simpa only [rows, Array.size_map] using hThere
  rw [emptyProductions]
  have hSame : ∀ r ∈ List.range rows.size, (row r).isEmpty = (r == 4) := by
    intro r hr
    rw [Bool.eq_iff_iff, isEmpty_row_iff (List.mem_range.mp hr), beq_iff_eq]
  rw [List.filter_congr hSame, List.filter_beq,
    List.count_eq_one_of_mem List.nodup_range (List.mem_range.mpr hLt)]
  rfl

theorem getD_modify {α : Type} {xs : Array α} {i j : Nat} {f : α → α} {d : α} (h : i ≠ j) :
    (xs.modify i f).getD j d = xs.getD j d := by
  rw [Array.getD_eq_getD_getElem?, Array.getElem?_modify, if_neg h, ← Array.getD_eq_getD_getElem?]

theorem getD_replicate {α : Type} {n i : Nat} {a : α} : (Array.replicate n a).getD i a = a := by
  rw [Array.getD_eq_getD_getElem?, Array.getElem?_replicate]
  split <;> rfl

/-- No production starts with a program or with the end of the text. -/
theorem opening_eq_nil (h : x = Phrase.program.code ∨ x = Token.endOfText.code) : opening x = [] := by
  rw [opening, openings, ← Array.foldr_toList]
  refine List.foldrRecOn (motive := fun lists : Array (List Nat) => lists.getD x [] = []) _ _
    getD_replicate fun lists hLists r _ => ?_
  split
  · rename_i y hFirst
    split
    · exact hLists
    · rename_i hWhole
      obtain ⟨hProgram, hEnd⟩ := ne_code_of_first hWhole hFirst
      rwa [getD_modify]
      rintro rfl
      exact h.elim hProgram hEnd
  · exact hLists

theorem phrase_ne_of_mem_addCorner (hWhole : r ≠ 0) {found : List Corner}
    (hFound : ∀ c ∈ found, c.phrase ≠ Phrase.program.code) :
    ∀ c ∈ addCorner found r, c.phrase ≠ Phrase.program.code := by
  intro c hMem
  -- Unfolded as a function: to unfold an application the kernel would work out the rows.
  obtain ⟨add, hAdd⟩ : ∃ add, add = addCorner := ⟨_, rfl⟩
  rw [← hAdd] at hMem
  delta addCorner at hAdd
  subst hAdd
  beta_reduce at hMem
  split at hMem
  · exact hFound c hMem
  · rename_i y hFirst
    have hNe : y ≠ Phrase.program.code := (ne_code_of_first hWhole hFirst).1
    split at hMem
    · exact hFound c hMem
    · split at hMem
      all_goals
        extract_lets own at hMem
        split at hMem
        · rcases List.mem_cons.mp hMem with hSame | hOther
          · rw [hSame]
            exact hNe
          · exact hFound c hOther
        · obtain ⟨old, hOld, hSame⟩ := List.mem_map.mp hMem
          rw [← hSame]
          split
          · exact hNe
          · exact hFound old hOld

/-- No phrase starts with a program. -/
theorem phrase_ne_of_mem_corners : ∀ c ∈ corners x, c.phrase ≠ Phrase.program.code := by
  rw [corners, cornerLists, ← Array.foldl_toList]
  refine List.foldlRecOn (motive := fun lists : Array (List Corner) =>
    ∀ c ∈ lists.getD x [], c.phrase ≠ Phrase.program.code) _ _ ?_ fun lists hLists r _ => ?_
  · rw [getD_replicate]
    exact List.forall_mem_nil _
  · split
    · exact hLists
    · rename_i hWhole
      by_cases hLeft : left r = x
      · rw [Array.getD_eq_getD_getElem?, Array.getElem?_modify, if_pos hLeft]
        rw [Array.getD_eq_getD_getElem?] at hLists
        cases hThere : lists[x]? with
        | none => simp
        | some found =>
          rw [hThere, Option.getD_some] at hLists
          rw [Option.map_some, Option.getD_some]
          exact phrase_ne_of_mem_addCorner hWhole hLists
      · rwa [getD_modify hLeft]

end Rows

end Reanalysis.Script
