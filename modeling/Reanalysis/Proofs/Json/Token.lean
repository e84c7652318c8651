import Reanalysis.Json.Reader
import Reanalysis.Proofs.Text

/-!
# Written tokens read back

`Reads r cs a` says that the reader `r` takes the text `cs` off the front and returns `a`, whatever
comes behind it. Words, strings and whole numbers are read back from the form they are written in.
-/

namespace Reanalysis.Json

open Text

variable {α β : Type}

@[simp] theorem ok_bind {ε : Type} (a : α) (f : α → Except ε β) :
    (Except.ok a >>= f) = f a := rfl

@[simp] theorem pure_eq_ok {ε : Type} (a : α) : (pure a : Except ε α) = .ok a := rfl

/-- No number goes on here: the text is over, or a comma or a closing bracket comes. -/
def Ends (rest : List Char) : Prop := ∀ c ∈ rest.head?, c = ',' ∨ c = ']' ∨ c = '\x7d'

theorem ends_nil : Ends [] := by simp [Ends]

theorem ends_cons {c : Char} (h : c = ',' ∨ c = ']' ∨ c = '\x7d') (rest : List Char) :
    Ends (c :: rest) := by simpa [Ends] using h

/-- On a text that starts with `cs` the reader consumes `cs` and returns `a`. -/
def Reads (r : Reader α) (cs : List Char) (a : α) : Prop :=
  ∀ rest, Ends rest → r.run (cs ++ rest) = .ok (a, rest)

theorem Reads.readWhole {r : Reader α} {cs : List Char} {a : α} (h : Reads r cs a) :
    Json.readWhole r cs = .ok a := by
  have hRun := h [] ends_nil
  rw [List.append_nil] at hRun
  rw [Json.readWhole, hRun]
  rfl

theorem Reads.map {r : Reader α} {cs : List Char} {a : α} (h : Reads r cs a) (f : α → β) :
    Reads (do return f (← r)) cs (f a) := by
  intro rest hRest
  simp [h rest hRest]

/-! ## Characters and words -/

@[simp] theorem run_get (cs : List Char) : (get : Reader (List Char)).run cs = .ok (cs, cs) := rfl

@[simp] theorem run_advance (c : Char) (rest : List Char) :
    advance.run (c :: rest) = .ok ((), rest) := rfl

theorem run_look {c : Char} (h : isSpace c = false) (rest : List Char) :
    look.run (c :: rest) = .ok (some c, c :: rest) := by
  simp [look, h]

theorem run_lookValue {c : Char} (h : isSpace c = false) (rest : List Char) :
    lookValue.run (c :: rest) = .ok (c, c :: rest) := by
  simp [lookValue, run_look h]

theorem run_lookValue_bind {f : Char → Reader α} {c : Char} (h : isSpace c = false)
    (rest : List Char) : (lookValue >>= f).run (c :: rest) = (f c).run (c :: rest) := by
  rw [StateT.run_bind, run_lookValue h, ok_bind]

@[simp] theorem run_colon (rest : List Char) : colon.run (':' :: rest) = .ok ((), rest) := by
  simp [colon, run_look (show isSpace ':' = false by decide)]

theorem isSpace_eq_false_of_isDigit {c : Char} (h : c.isDigit = true) : isSpace c = false := by
  simp only [isSpace, Bool.or_eq_false_iff, decide_eq_false_iff_not]
  refine ⟨⟨⟨?_, ?_⟩, ?_⟩, ?_⟩ <;> exact ne_of_isDigit h (by decide)

/-! ## Strings -/

section Strings

variable {unicode : Reader Char} {fuel : Nat} {c : Char} {text rest cs after : List Char}

theorem stringFrom_short {e : Char} (hc : shortEscape? e = some c)
    (h : (stringFrom unicode fuel).run rest = .ok (cs, after)) :
    (stringFrom unicode (fuel + 1)).run ('\\' :: e :: rest) = .ok (c :: cs, after) := by
  have he : e ≠ 'u' := by
    rintro rfl
    simp [shortEscape?] at hc
  simp [stringFrom, he, hc, h]

theorem stringFrom_unicode (hc : unicode.run text = .ok (c, rest))
    (h : (stringFrom unicode fuel).run rest = .ok (cs, after)) :
    (stringFrom unicode (fuel + 1)).run ('\\' :: 'u' :: text) = .ok (c :: cs, after) := by
  simp [stringFrom, hc, h]

theorem stringFrom_plain (hQuote : c ≠ '"') (hSlash : c ≠ '\\') (hControl : 32 ≤ c.toNat)
    (h : (stringFrom unicode fuel).run rest = .ok (cs, after)) :
    (stringFrom unicode (fuel + 1)).run (c :: rest) = .ok (c :: cs, after) := by
  have hControl' : ¬ c.toNat < 32 := by omega
  rw [stringFrom]
  simp [h, hSlash, hControl']

theorem hexValue?_hexDigit : ∀ n < 16, hexValue? (hexDigit n) = some n := by decide

theorem unicodeEscape_hexDigit {n : Nat} (h : n < 256) (rest : List Char) :
    unicodeEscape.run ('0' :: '0' :: hexDigit (n / 16) :: hexDigit (n % 16) :: rest) =
      .ok (Char.ofNat n, rest) := by
  have hHigh := hexValue?_hexDigit (n / 16) (by omega)
  have hLow := hexValue?_hexDigit (n % 16) (by omega)
  have hZero : hexValue? '0' = some 0 := by decide
  have hValue : n / 16 * 16 + n % 16 = n := by omega
  have hLowSurrogate : ¬ 0xdc00 ≤ n := by omega
  have hHighSurrogate : ¬ 0xd800 ≤ n := by omega
  simp [unicodeEscape, hexCode, hHigh, hLow, hZero, hValue, hLowSurrogate, hHighSurrogate]

theorem stringFrom_escapeChar (c : Char)
    (h : (stringFrom unicodeEscape fuel).run rest = .ok (cs, after)) :
    (stringFrom unicodeEscape (fuel + 1)).run (escapeChar c ++ rest) = .ok (c :: cs, after) := by
  unfold escapeChar
  split
  · subst c; exact stringFrom_short (by decide) h
  split
  · subst c; exact stringFrom_short (by decide) h
  split
  · subst c; exact stringFrom_short (by decide) h
  split
  · subst c; exact stringFrom_short (by decide) h
  split
  · subst c; exact stringFrom_short (by decide) h
  split
  · subst c; exact stringFrom_short (by decide) h
  split
  · subst c; exact stringFrom_short (by decide) h
  split
  · rename_i hControl
    have hCode := unicodeEscape_hexDigit (show c.toNat < 256 by omega) rest
    rw [Char.ofNat_toNat] at hCode
    exact stringFrom_unicode hCode h
  · rename_i hQuote hSlash _ _ _ _ _ hControl
    exact stringFrom_plain hQuote hSlash (by omega) h

theorem stringFrom_escaped (s rest : List Char) {fuel : Nat} (hFuel : s.length < fuel) :
    (stringFrom unicodeEscape fuel).run (s.flatMap escapeChar ++ '"' :: rest) = .ok (s, rest) := by
  induction s generalizing fuel with
  | nil =>
    obtain ⟨fuel, rfl⟩ := Nat.exists_eq_add_of_lt hFuel
    rfl
  | cons c s ih =>
    obtain ⟨fuel, rfl⟩ := Nat.exists_eq_add_of_lt hFuel
    rw [List.flatMap_cons, List.append_assoc]
    exact stringFrom_escapeChar c (ih (by simp; omega))

end Strings

theorem length_le_escaped (s : List Char) : s.length ≤ (s.flatMap escapeChar).length := by
  have hChar (c : Char) : 1 ≤ (escapeChar c).length := by
    unfold escapeChar
    split_ifs <;> simp
  induction s with
  | nil => simp
  | cons c s ih =>
    have := hChar c
    simp only [List.flatMap_cons, List.length_append, List.length_cons]
    omega

theorem run_stringBody (s : String) (rest : List Char) :
    stringBody.run (s.toList.flatMap escapeChar ++ '"' :: rest) = .ok (s, rest) := by
  have hLength := length_le_escaped s.toList
  have hBody := stringFrom_escaped s.toList rest
    (show _ < (s.toList.flatMap escapeChar ++ '"' :: rest).length + 1 by
      rw [List.length_append]
      omega)
  simp only [stringBody, StateT.run_bind, run_get, ok_bind, hBody, StateT.run_pure, pure_eq_ok,
    String.ofList_toList]

/-! ## Numbers -/

theorem Ends.not_isDigit {rest : List Char} (h : Ends rest) :
    ∀ c ∈ rest.head?, c.isDigit = false := by
  intro c hc
  rcases h c hc with rfl | rfl | rfl <;> decide

theorem Ends.head?_ne {rest : List Char} (h : Ends rest) {c : Char}
    (hComma : c ≠ ',') (hList : c ≠ ']') (hObject : c ≠ '\x7d') : rest.head? ≠ some c := by
  intro hc
  rcases h c hc with rfl | rfl | rfl <;> contradiction

theorem run_digits {ds rest : List Char} (hDigits : ∀ c ∈ ds, c.isDigit = true)
    (hRest : Ends rest) : digits.run (ds ++ rest) = .ok (ds, rest) := by
  have hTake : rest.takeWhile Char.isDigit = [] := by
    cases rest with
    | nil => rfl
    | cons c rest => simp [hRest.not_isDigit c rfl]
  have hDrop : rest.dropWhile Char.isDigit = rest := by
    cases rest with
    | nil => rfl
    | cons c rest => simp [hRest.not_isDigit c rfl]
  simp [digits, List.takeWhile_append_of_pos hDigits, List.dropWhile_append_of_pos hDigits, hTake,
    hDrop]

theorem eq_zero_of_head?_toDigits {n : Nat} (h : (Nat.toDigits 10 n).head? = some '0') : n = 0 := by
  induction n using Nat.strongRecOn with
  | ind n ih =>
    by_cases hSmall : n < 10
    · rw [Nat.toDigits_of_lt_base hSmall] at h
      have hDigit : ∀ m < 10, [Nat.digitChar m].head? = some '0' → m = 0 := by decide
      exact hDigit n hSmall h
    · rw [Nat.toDigits_of_base_le (by decide) (by omega),
        List.head?_append_of_ne_nil _ Nat.toDigits_ne_nil] at h
      have := ih (n / 10) (by omega) h
      omega

theorem run_someDigits (early : Fault) (n : Nat) {rest : List Char} (h : Ends rest) :
    (someDigits early).run (Nat.toDigits 10 n ++ rest) = .ok (Nat.toDigits 10 n, rest) := by
  have hDigits : digits.run (Nat.toDigits 10 n ++ rest) = .ok (Nat.toDigits 10 n, rest) :=
    run_digits (fun c => isDigit_of_mem_toDigits) h
  simp [someDigits, hDigits]

theorem head?_digits_ne_minus (n : Nat) (rest : List Char) :
    ((Nat.toDigits 10 n ++ rest).head? == some '-') = false := by
  obtain ⟨d, ds, hDigits, hDigit⟩ := exists_toDigits n
  rw [hDigits]
  simpa using ne_of_isDigit hDigit (show '-'.isDigit = false by decide)

theorem toDigits_no_leading_zero (n : Nat) :
    ((Nat.toDigits 10 n).head? = some '0' && 1 < (Nat.toDigits 10 n).length) = false := by
  by_cases h : (Nat.toDigits 10 n).head? = some '0'
  · rw [eq_zero_of_head?_toDigits h]
    rfl
  · simp [h]

theorem run_literal (early : Fault) (minus : Bool) (n : Nat) {rest : List Char} (h : Ends rest) :
    (literal early).run ((if minus then ['-'] else []) ++ Nat.toDigits 10 n ++ rest) =
      .ok (⟨minus, Nat.toDigits 10 n, none, none⟩, rest) := by
  have hZero := toDigits_no_leading_zero n
  have hPoint : rest.head? ≠ some '.' := h.head?_ne (by decide) (by decide) (by decide)
  have hLower : rest.head? ≠ some 'e' := h.head?_ne (by decide) (by decide) (by decide)
  have hUpper : rest.head? ≠ some 'E' := h.head?_ne (by decide) (by decide) (by decide)
  cases minus with
  | false =>
    simp only [literal, StateT.run_bind, run_get, ok_bind, head?_digits_ne_minus,
      Bool.false_eq_true, if_false, List.nil_append, run_someDigits early n h, hZero, hPoint,
      StateT.run_pure, pure_eq_ok]
  | true =>
    simp only [literal, StateT.run_bind, run_get, ok_bind, if_true, List.cons_append,
      List.nil_append, List.head?_cons, BEq.rfl, run_advance, Bool.false_eq_true, if_false,
      run_someDigits early n h, hZero, hPoint, StateT.run_pure, pure_eq_ok]

theorem reads_nat {n : Nat} (h : n < wordBound) : Reads number (Nat.toDigits 10 n) (.nat n) := by
  intro rest hRest
  have hLiteral := run_literal .truncated false n hRest
  have hNumber : Literal.number? ⟨false, Nat.toDigits 10 n, none, none⟩ = some (.nat n) := by
    simp [Literal.number?, natOfDigits_toDigits, h]
  simp only [Bool.false_eq_true, if_false, List.nil_append] at hLiteral
  simp [number, hLiteral, hNumber]

theorem reads_negative {n : Nat} (hPos : 0 < n) (h : n ≤ 0x8000000000000000) :
    Reads number ('-' :: Nat.toDigits 10 n) (.negative n) := by
  intro rest hRest
  have hLiteral := run_literal .truncated true n hRest
  have hNumber : Literal.number? ⟨true, Nat.toDigits 10 n, none, none⟩ = some (.negative n) := by
    simp [Literal.number?, natOfDigits_toDigits, hPos, h]
  simp only [if_true, List.cons_append, List.nil_append] at hLiteral
  simp [number, hLiteral, hNumber]

end Reanalysis.Json
