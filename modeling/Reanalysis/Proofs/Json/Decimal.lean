import Reanalysis.Proofs.Json.Typed
import Reanalysis.Proofs.Json.Yields

/-!
# Floating-point numbers in records

A number that is read from a text of its own is read all the same where a comma or a bracket comes
behind it, so all that is asked of floating-point numbers is that their text reads back.
-/

namespace Reanalysis.Json

open Text

variable {α β : Type} {cs tail : List Char} {r r' : Reader α}

/-! ## A number ends where its text ends -/

/-- What `r` returns for `cs` is what `r'` returns when more text comes behind. -/
def Extends (cs tail : List Char) (r r' : Reader α) : Prop :=
  ∀ a rest, r.run cs = .ok (a, rest) → rest <:+ cs ∧ r'.run (cs ++ tail) = .ok (a, rest ++ tail)

theorem extends_pure (a : α) : Extends cs tail (pure a : Reader α) (pure a) := by
  intro b rest hRun
  cases hRun
  exact ⟨List.suffix_rfl, rfl⟩

theorem extends_throw (e : Fault) : Extends cs tail (throw e) r' := by
  intro a rest hRun
  cases hRun

theorem extends_throw_bind (e : Fault) {f : β → Reader α} : Extends cs tail (throw e >>= f) r' := by
  intro a rest hRun
  cases hRun

theorem extends_bind {x x' : Reader β} {f f' : β → Reader α} (hx : Extends cs tail x x')
    (hf : ∀ b rest, Extends rest tail (f b) (f' b)) : Extends cs tail (x >>= f) (x' >>= f') := by
  intro a rest hRun
  rw [StateT.run_bind] at hRun
  cases hStep : x.run cs with
  | error e => rw [hStep] at hRun; cases hRun
  | ok step =>
    rw [hStep] at hRun
    obtain ⟨hSuffix, hMore⟩ := hx step.1 step.2 hStep
    obtain ⟨hSuffix', hMore'⟩ := hf step.1 step.2 a rest hRun
    refine ⟨hSuffix'.trans hSuffix, ?_⟩
    rw [StateT.run_bind, hMore, ok_bind, hMore']

theorem extends_get_bind {f f' : List Char → Reader α}
    (h : Extends cs tail (f cs) (f' (cs ++ tail))) : Extends cs tail (get >>= f) (get >>= f') := h

theorem extends_advance_bind {c : Char} {f f' : PUnit → Reader α} (hHead : cs.head? = some c)
    (h : ∀ rest, Extends rest tail (f ⟨⟩) (f' ⟨⟩)) :
    Extends cs tail (advance >>= f) (advance >>= f') := by
  cases cs with
  | nil => cases hHead
  | cons c' cs =>
    intro a rest hRun
    obtain ⟨hSuffix, hMore⟩ := h cs a rest hRun
    exact ⟨hSuffix.trans (List.suffix_cons c' cs), hMore⟩

theorem head?_append_iff (hTail : Ends tail) {c : Char} (hComma : c ≠ ',') (hList : c ≠ ']')
    (hObject : c ≠ '\x7d') : (cs ++ tail).head? = some c ↔ cs.head? = some c := by
  cases cs with
  | nil =>
    simp only [List.nil_append, List.head?_nil, reduceCtorEq, iff_false]
    exact hTail.head?_ne hComma hList hObject
  | cons d cs => simp

theorem extends_digits (hTail : Ends tail) : Extends cs tail digits digits := by
  intro ds rest hRun
  cases hRun
  refine ⟨List.dropWhile_suffix _, ?_⟩
  induction cs with
  | nil => exact run_digits (List.forall_mem_nil _) hTail
  | cons c cs ih =>
    by_cases hc : c.isDigit = true
    · have hRest : ((cs ++ tail).takeWhile Char.isDigit, (cs ++ tail).dropWhile Char.isDigit) =
          (cs.takeWhile Char.isDigit, cs.dropWhile Char.isDigit ++ tail) := Except.ok.inj ih
      obtain ⟨hTake, hDrop⟩ := Prod.mk.inj hRest
      simp [digits, hc, hTake, hDrop]
    · simp [digits, hc]

theorem extends_someDigits (early : Fault) (hTail : Ends tail) :
    Extends cs tail (someDigits early) (someDigits early) := by
  refine extends_bind (extends_digits hTail) fun ds rest => ?_
  split
  · exact extends_get_bind (extends_throw_bind _)
  · exact extends_pure ds

theorem extends_exponent {early : Fault} {f f' : List Char → List Char → Reader α} {c : Char}
    (hTail : Ends tail) (hHead : cs.head? = some c)
    (hf : ∀ text ds rest, Extends rest tail (f text ds) (f' (text ++ tail) ds)) :
    Extends cs tail
      (advance >>= fun _ => get >>= fun text =>
        if text.head? = some '+' || text.head? = some '-' then
          advance >>= fun _ => someDigits early >>= f text
        else someDigits early >>= f text)
      (advance >>= fun _ => get >>= fun text =>
        if text.head? = some '+' || text.head? = some '-' then
          advance >>= fun _ => someDigits early >>= f' text
        else someDigits early >>= f' text) := by
  refine extends_advance_bind hHead fun rest => extends_get_bind ?_
  have hPlus : (rest ++ tail).head? = some '+' ↔ rest.head? = some '+' :=
    head?_append_iff hTail (by decide) (by decide) (by decide)
  have hMinus : (rest ++ tail).head? = some '-' ↔ rest.head? = some '-' :=
    head?_append_iff hTail (by decide) (by decide) (by decide)
  have hDigits (rest' : List Char) : Extends rest' tail (someDigits early >>= f rest)
      (someDigits early >>= f' (rest ++ tail)) :=
    extends_bind (extends_someDigits early hTail) fun ds rest' => hf rest ds rest'
  simp only [hPlus, hMinus]
  split
  · rename_i hSign
    simp only [Bool.or_eq_true, decide_eq_true_eq] at hSign
    rcases hSign with hSign | hSign
    · exact extends_advance_bind hSign hDigits
    · exact extends_advance_bind hSign hDigits
  · exact hDigits rest

theorem extends_literal (early : Fault) (hTail : Ends tail) :
    Extends cs tail (literal early) (literal early) := by
  have hMinus (cs : List Char) : ((cs ++ tail).head? == some '-') = (cs.head? == some '-') := by
    rw [Bool.eq_iff_iff, beq_iff_eq, beq_iff_eq,
      head?_append_iff hTail (by decide) (by decide) (by decide)]
  have hPoint (cs : List Char) : (cs ++ tail).head? = some '.' ↔ cs.head? = some '.' :=
    head?_append_iff hTail (by decide) (by decide) (by decide)
  have hLower (cs : List Char) : (cs ++ tail).head? = some 'e' ↔ cs.head? = some 'e' :=
    head?_append_iff hTail (by decide) (by decide) (by decide)
  have hUpper (cs : List Char) : (cs ++ tail).head? = some 'E' ↔ cs.head? = some 'E' :=
    head?_append_iff hTail (by decide) (by decide) (by decide)
  unfold literal
  refine extends_get_bind ?_
  rw [hMinus]
  extract_lets minus afterSign
  suffices h : ∀ rest, Extends rest tail (afterSign ()) (afterSign ()) by
    split
    · rename_i hm
      exact extends_advance_bind (beq_iff_eq.mp hm) h
    · exact h cs
  intro rest
  refine extends_bind (extends_someDigits early hTail) fun whole rest => ?_
  extract_lets afterPart afterWhole
  have hPart (part : Option (List Char)) (rest : List Char) :
      Extends rest tail (afterPart part) (afterPart part) := by
    refine extends_get_bind ?_
    dsimp only
    split
    · rename_i hHead
      rw [(hLower rest).mpr hHead]
      refine extends_exponent hTail hHead fun text ds rest => ?_
      rw [hMinus]
      exact extends_pure _
    · rename_i hHead
      rw [(hUpper rest).mpr hHead]
      refine extends_exponent hTail hHead fun text ds rest => ?_
      rw [hMinus]
      exact extends_pure _
    · rename_i hNotLower hNotUpper
      split
      · rename_i hHead
        exact absurd ((hLower rest).mp hHead) hNotLower
      · rename_i hHead
        exact absurd ((hUpper rest).mp hHead) hNotUpper
      · exact extends_pure _
  suffices h : ∀ rest, Extends rest tail (afterWhole ()) (afterWhole ()) by
    split
    · exact extends_throw_bind _
    · exact h rest
  intro rest
  refine extends_get_bind ?_
  simp only [hPoint]
  split
  · rename_i hHead
    refine extends_advance_bind hHead fun rest => ?_
    exact extends_bind (extends_someDigits early hTail) fun ds rest => hPart _ rest
  · exact hPart none rest

theorem extends_number (hTail : Ends tail) : Extends cs tail number number := by
  refine extends_bind (extends_literal _ hTail) fun l rest => ?_
  split
  · exact extends_pure _
  · exact extends_throw _

theorem extends_converted (convert : Number → Option α) (hTail : Ends tail) :
    Extends cs tail
      (do match convert (← number) with
        | some a => return a
        | none => throw .mistyped)
      (do match convert (← number) with
        | some a => return a
        | none => throw .mistyped) := by
  refine extends_bind (extends_number hTail) fun n rest => ?_
  split
  · exact extends_pure _
  · exact extends_throw _

theorem extends_typedNumber (convert : Number → Option α) (hTail : Ends tail)
    (hFront : ∀ c ∈ cs, isSpace c = false) :
    Extends cs tail (typedNumber convert) (typedNumber convert) := by
  cases cs with
  | nil =>
    intro a rest hRun
    cases hRun
  | cons c cs =>
    have hSpace := hFront c List.mem_cons_self
    intro a rest hRun
    rw [typedNumber, run_lookValue_bind hSpace] at hRun
    rw [typedNumber, List.cons_append, run_lookValue_bind hSpace]
    split at hRun
    · rename_i hSign
      rw [if_pos hSign]
      exact extends_converted convert hTail a rest hRun
    · have hNever : Yields (mismatch c : Reader α) fun _ => False := yields_mismatch c
      exact (hNever _ a rest hRun).elim

theorem reads_of_readWhole {convert : Number → Option α} {a : α}
    (hFront : ∀ c ∈ cs, isSpace c = false) (h : readWhole (typedNumber convert) cs = .ok a) :
    Reads (typedNumber convert) cs a := by
  intro tail hTail
  rw [readWhole] at h
  cases hRun : (typedNumber convert).run cs with
  | error e => rw [hRun] at h; cases h
  | ok step =>
    obtain ⟨b, rest⟩ := step
    obtain ⟨hSuffix, hMore⟩ := extends_typedNumber convert hTail hFront b rest hRun
    rw [hRun] at h
    change (if (rest.dropWhile isSpace).isEmpty then .ok b else .error Fault.malformed) =
      Except.ok a at h
    have hRest : rest.dropWhile isSpace = rest := by
      cases rest with
      | nil => rfl
      | cons c rest => simp [hFront c (hSuffix.subset List.mem_cons_self)]
    rw [hRest] at h
    split at h
    · rename_i hEmpty
      cases h
      rw [hMore, List.isEmpty_iff.mp hEmpty, List.nil_append]
    · cases h

/-! ## The characters of a number -/

/-- A letter, a digit or one of the marks of numbers, names and their separation. -/
def isMark (c : Char) : Bool := c.isAlphanum || "-+._,:\"".toList.contains c

theorem isMark_of_isDigit {c : Char} (h : c.isDigit = true) : isMark c = true := by
  simp [isMark, Char.isAlphanum, h]

def Marked (cs : List Char) : Prop := ∀ c ∈ cs, isMark c = true

instance : DecidablePred Marked := List.decidableBAll _

theorem marked_append {cs ds : List Char} : Marked (cs ++ ds) ↔ Marked cs ∧ Marked ds :=
  List.forall_mem_append

theorem marked_cons {c : Char} {cs : List Char} : Marked (c :: cs) ↔ isMark c = true ∧ Marked cs :=
  List.forall_mem_cons

theorem marked_toDigits (n : Nat) : Marked (Nat.toDigits 10 n) :=
  fun _ hc => isMark_of_isDigit (isDigit_of_mem_toDigits hc)

theorem marked_zeros (n : Nat) : Marked (Decimal.zeros n) := by
  intro c hc
  rw [List.eq_of_mem_replicate hc]
  decide

theorem marked_signed (negative : Bool) {cs : List Char} (h : Marked cs) :
    Marked (Decimal.signed negative cs) := by
  cases negative with
  | false => exact h
  | true => exact marked_cons.mpr ⟨by decide, h⟩

theorem marked_intChars (n : Int) : Marked (intChars n) := by
  rw [intChars]
  split
  · exact marked_cons.mpr ⟨by decide, marked_toDigits _⟩
  · exact marked_toDigits _

theorem marked_positionalChars (l : Decimal.Layout) {digits : List Char} (h : Marked digits)
    (point : Int) : Marked (Decimal.positionalChars l digits point) := by
  have hTake (n : Nat) : Marked (digits.take n) := fun c hc => h c (List.mem_of_mem_take hc)
  have hDrop (n : Nat) : Marked (digits.drop n) := fun c hc => h c (List.mem_of_mem_drop hc)
  rw [Decimal.positionalChars]
  split
  · exact marked_cons.mpr ⟨by decide, marked_cons.mpr ⟨by decide,
      marked_append.mpr ⟨marked_zeros _, h⟩⟩⟩
  · have hFront := marked_append.mpr ⟨hTake point.toNat, marked_zeros (point.toNat - digits.length)⟩
    dsimp only
    split
    · exact marked_append.mpr ⟨hFront, marked_cons.mpr ⟨by decide, hDrop _⟩⟩
    split
    · exact marked_append.mpr ⟨hFront, by decide⟩
    · exact hFront

theorem marked_exponentChars {digits : List Char} (h : Marked digits) (point : Int) :
    Marked (Decimal.exponentChars digits point) := by
  unfold Decimal.exponentChars
  refine marked_append.mpr ⟨?_, marked_cons.mpr ⟨by decide, marked_cons.mpr ⟨?_, marked_toDigits _⟩⟩⟩
  · match digits, h with
    | [], h => exact h
    | [_], h => exact h
    | d :: e :: rest, h =>
      obtain ⟨hd, hRest⟩ := marked_cons.mp h
      exact marked_cons.mpr ⟨hd, marked_cons.mpr ⟨by decide, hRest⟩⟩
  · split <;> decide

theorem marked_floatChars (x : Float) : Marked (floatChars x) := by
  have hSpecial : Marked (Decimal.specialChars x) := by
    rw [Decimal.specialChars]
    split
    · decide
    · exact marked_signed _ (by decide)
  rw [floatChars]
  split
  · rw [Decimal.Layout.chars]
    split
    · refine marked_signed _ ?_
      rw [Decimal.Layout.magnitudeChars]
      split
      · split <;> decide
      · dsimp only
        split
        · exact marked_positionalChars _ (marked_toDigits _) _
        · exact marked_exponentChars (marked_toDigits _) _
    · exact hSpecial
  · decide

theorem isSpace_of_isMark {c : Char} (h : isMark c = true) : isSpace c = false := by
  cases hSpace : isSpace c with
  | false => rfl
  | true =>
    simp only [isSpace, Bool.or_eq_true, decide_eq_true_eq] at hSpace
    rcases hSpace with ((rfl | rfl) | rfl) | rfl <;> exact absurd h (by decide)

/-- The text of a number, alone on its line, reads back as another one. -/
def ReadsBack (x y : Float) : Prop := read float (Value.float x).render = .ok y

theorem ReadsBack.reads {x y : Float} (h : ReadsBack x y) : Reads float (Value.float x).chars y := by
  rw [ReadsBack, read, Value.render, String.toList_ofList] at h
  exact reads_of_readWhole (fun c hc => isSpace_of_isMark (marked_floatChars x c hc)) h

theorem reads_nullable {convert : Number → Option α} {a : α} (hFront : ∀ c ∈ cs, isSpace c = false)
    (h : Reads (typedNumber convert) cs a) : Reads (nullable (typedNumber convert)) cs (some a) := by
  intro rest hRest
  have hRead := h rest hRest
  cases cs with
  | nil =>
    have hNothing := h [] ends_nil
    cases hNothing
  | cons c cs =>
    have hSpace := hFront c List.mem_cons_self
    have hc : c ≠ 'n' := by
      rintro rfl
      have hNever : Yields (mismatch 'n' : Reader α) fun _ => False := yields_mismatch 'n'
      rw [List.cons_append, typedNumber, run_lookValue_bind hSpace, if_neg (by decide)] at hRead
      exact hNever _ a rest hRead
    rw [List.cons_append] at hRead ⊢
    simp [nullable, run_look hSpace, hc, hRead]

theorem ReadsBack.reads_nullable {x y : Float} (h : ReadsBack x y) :
    Reads (nullable float) (Value.float x).chars (some y) :=
  Json.reads_nullable (fun c hc => isSpace_of_isMark (marked_floatChars x c hc)) h.reads

/-! ## Signs -/

theorem float_le_iff {x y : Float} : x ≤ y ↔ x.toModel.unpack.le y.toModel.unpack = true := by
  change decide _ = true ↔ _
  exact decide_eq_true_iff

theorem float_lt_iff {x y : Float} : x < y ↔ x.toModel.unpack.lt y.toModel.unpack = true := by
  change decide _ = true ↔ _
  exact decide_eq_true_iff

theorem order_to_zero (x : Float) :
    0.0 < x ∧ 0.0 ≤ x ∧ ¬ x < 0.0 ∧ ¬ x ≤ 0.0 ∨ ¬ 0.0 < x ∧ 0.0 ≤ x ∧ ¬ x < 0.0 ∧ x ≤ 0.0 ∨
      ¬ 0.0 < x ∧ ¬ 0.0 ≤ x ∧ x < 0.0 ∧ x ≤ 0.0 ∨
      x.isFinite = false ∧ ¬ 0.0 < x ∧ ¬ 0.0 ≤ x := by
  have hZero : (0.0 : Float).toModel.unpack = .zero .positive := rfl
  have hFinite : x.isFinite = x.toModel.unpack.isFinite := rfl
  rw [float_lt_iff, float_le_iff, float_lt_iff, float_le_iff, hZero, hFinite]
  generalize x.toModel.unpack = u
  cases u with
  | notANumber => decide
  | infinity s => cases s <;> decide
  | zero s => cases s <;> decide
  | finite s m e hm =>
    cases s with
    | positive => exact .inl ⟨rfl, rfl, nofun, nofun⟩
    | negative => exact .inr (.inr (.inl ⟨nofun, nofun, rfl, rfl⟩))

theorem float_le_of_lt {x : Float} (h : 0.0 < x) : 0.0 ≤ x := by
  rcases order_to_zero x with ⟨-, hLe, -⟩ | ⟨hNot, -⟩ | ⟨hNot, -⟩ | ⟨-, hNot, -⟩
  · exact hLe
  all_goals exact absurd h hNot

theorem float_not_lt_of_le {x : Float} (h : 0.0 ≤ x) : ¬ x < 0.0 := by
  rcases order_to_zero x with ⟨-, -, hLt, -⟩ | ⟨-, -, hLt, -⟩ | ⟨-, hNot, -⟩ | ⟨-, -, hNot⟩
  · exact hLt
  · exact hLt
  all_goals exact absurd h hNot

theorem float_not_le_of_lt {x : Float} (h : 0.0 < x) : ¬ x ≤ 0.0 := by
  rcases order_to_zero x with ⟨-, -, -, hLe⟩ | ⟨hNot, -⟩ | ⟨hNot, -⟩ | ⟨-, hNot, -⟩
  · exact hLe
  all_goals exact absurd h hNot

theorem float_lt_of_not_le {x : Float} (hFinite : x.isFinite = true) (h : ¬ x ≤ 0.0) : 0.0 < x := by
  rcases order_to_zero x with ⟨hLt, -⟩ | ⟨-, -, -, hLe⟩ | ⟨-, -, -, hLe⟩ | ⟨hNot, -⟩
  · exact hLt
  · exact absurd hLe h
  · exact absurd hLe h
  · rw [hFinite] at hNot
    cases hNot

/-- A finite number reads back as a finite number, one that is not negative as one that is not, and a
positive one as a positive one. -/
def Faithful (x : Float) : Prop :=
  x.isFinite = true →
    ∃ y, ReadsBack x y ∧ y.isFinite = true ∧ (0.0 ≤ x → 0.0 ≤ y) ∧ (0.0 < x → 0.0 < y)

instance (x : Float) : Decidable (Faithful x) :=
  decidable_of_iff
    (x.isFinite = true → ((read float (Value.float x).render).toOption.any fun y =>
      y.isFinite = true ∧ (0.0 ≤ x → 0.0 ≤ y) ∧ (0.0 < x → 0.0 < y)) = true) <| by
    rw [Faithful]
    unfold ReadsBack
    refine imp_congr_right fun _ => ?_
    cases read float (Value.float x).render with
    | ok y => simp [Except.toOption, imp_iff_not_or]
    | error e => simp [Except.toOption]

/-! ## Whole numbers of 32 bits -/

theorem reads_int32 {n : Int} (hLower : -0x80000000 ≤ n) (hUpper : n < 0x80000000) :
    Reads int32 (Value.int n).chars n := by
  intro rest hRest
  rw [Value.chars, intChars]
  split
  · obtain ⟨k, rfl⟩ : ∃ k : Nat, n = -(k : Int) := ⟨n.natAbs, by omega⟩
    have hNumber := reads_negative (n := k) (by omega) (by omega) rest hRest
    have hBound : k ≤ 0x80000000 := by omega
    rw [List.cons_append] at hNumber
    rw [Int.natAbs_neg, Int.natAbs_natCast, List.cons_append, int32, typedNumber,
      run_lookValue_bind (by decide)]
    simp [hNumber, hBound]
  · have hNumber := reads_nat (n := n.toNat) (by rw [wordBound]; omega) rest hRest
    obtain ⟨d, ds, hDigits, hDigit⟩ := exists_toDigits n.toNat
    have hBound : n.toNat < 0x80000000 := by omega
    have hValue : (n.toNat : Int) = n := by omega
    rw [hDigits, List.cons_append] at hNumber ⊢
    rw [int32, typedNumber, run_lookValue_bind (isSpace_eq_false_of_isDigit hDigit)]
    simp [hDigit, hNumber, hBound, hValue]

end Reanalysis.Json
