import Mathlib.Data.List.Basic
import Reanalysis.Text.Blank
import Reanalysis.Text.Bytes
import Reanalysis.Text.Digit
import Reanalysis.Text.Split

/-!
# Texts put together and taken apart again

Parts that are joined at a mark are split at it again, lines that are written one after the other
are cut at their ends, and the digits of a number spell the number.
-/

namespace Reanalysis.Text

/-! ## Parts -/

theorem split_of_not_mem {mark : Char} {part : List Char} (h : mark ∉ part) :
    split mark part = [part] := by
  induction part with
  | nil => rfl
  | cons c part ih =>
    have hc : c ≠ mark := fun hc => h (hc ▸ List.mem_cons_self)
    rw [split, ih fun hMem => h (List.mem_cons_of_mem _ hMem)]
    simp [hc]

theorem split_append {mark : Char} {part : List Char} (h : mark ∉ part) (rest : List Char) :
    split mark (part ++ mark :: rest) = part :: split mark rest := by
  induction part with
  | nil =>
    rw [List.nil_append, split]
    split
    · rename_i hSplit
      exact absurd hSplit (split_ne_nil mark rest)
    · rename_i hSplit
      simp [hSplit]
  | cons c part ih =>
    have hc : c ≠ mark := fun hc => h (hc ▸ List.mem_cons_self)
    rw [List.cons_append, split, ih fun hMem => h (List.mem_cons_of_mem _ hMem)]
    simp [hc]

theorem split_join {mark : Char} {parts : List (List Char)} (hNe : parts ≠ [])
    (h : ∀ part ∈ parts, mark ∉ part) : split mark (join mark parts) = parts := by
  induction parts with
  | nil => exact absurd rfl hNe
  | cons part parts ih =>
    have hPart := h part List.mem_cons_self
    cases parts with
    | nil => exact split_of_not_mem hPart
    | cons next parts =>
      rw [join_cons mark part (by simp), split_append hPart,
        ih (by simp) fun p hp => h p (List.mem_cons_of_mem _ hp)]

/-! ## Lines -/

theorem dropReturn_of_not_mem {line : List Char} (h : '\r' ∉ line) : dropReturn line = line := by
  unfold dropReturn
  split
  · rename_i rest hReverse
    exact absurd (List.mem_reverse.mp (hReverse ▸ List.mem_cons_self)) h
  · rfl

theorem linesFrom_append {line : List Char} (h : '\n' ∉ line) (current rest : List Char) :
    linesFrom current (line ++ '\n' :: rest) =
      dropReturn (current.reverse ++ line) :: linesFrom [] rest := by
  induction line generalizing current with
  | nil => simp [linesFrom]
  | cons c line ih =>
    have hc : c ≠ '\n' := fun hc => h (hc ▸ List.mem_cons_self)
    have hLine := ih (fun hMem => h (List.mem_cons_of_mem _ hMem)) (c :: current)
    rw [List.reverse_cons, List.append_assoc, List.singleton_append] at hLine
    rw [List.cons_append, ← hLine, linesFrom]
    simpa using hc

theorem linesFrom_of_not_mem {line : List Char} (h : '\n' ∉ line) (current : List Char)
    (hNe : current.reverse ++ line ≠ []) :
    linesFrom current line = [current.reverse ++ line] := by
  induction line generalizing current with
  | nil =>
    have hCurrent : current ≠ [] := by simpa using hNe
    simp [linesFrom, hCurrent]
  | cons c line ih =>
    have hc : c ≠ '\n' := fun hc => h (hc ▸ List.mem_cons_self)
    have hLine := ih (fun hMem => h (List.mem_cons_of_mem _ hMem)) (c :: current) (by simp)
    rw [List.reverse_cons, List.append_assoc, List.singleton_append] at hLine
    rw [← hLine, linesFrom]
    simpa using hc

theorem lines_join {ls : List String} (h : ∀ l ∈ ls, '\n' ∉ l.toList ∧ '\r' ∉ l.toList) :
    lines (String.join (ls.map (· ++ "\n"))) = ls := by
  rw [lines, String.toList_join]
  induction ls with
  | nil => rfl
  | cons l ls ih =>
    obtain ⟨hFeed, hReturn⟩ := h l List.mem_cons_self
    rw [List.map_cons, List.flatMap_cons, String.toList_append, List.append_assoc]
    have hLine := linesFrom_append hFeed [] ((ls.map (· ++ "\n")).flatMap String.toList)
    rw [List.reverse_nil, List.nil_append, dropReturn_of_not_mem hReturn] at hLine
    simp [hLine, ih fun k hk => h k (List.mem_cons_of_mem _ hk)]

def linesText (ls : List (List Char)) : List Char := ls.flatMap (· ++ ['\n'])

theorem linesText_cons (l : List Char) (ls : List (List Char)) :
    linesText (l :: ls) = l ++ '\n' :: linesText ls := by
  simp [linesText]

theorem prefix_line_cases {p l rest : List Char} (h : p <+: l ++ '\n' :: rest) :
    p <+: l ∨ ∃ q, p = l ++ '\n' :: q ∧ q <+: rest := by
  by_cases hLength : p.length ≤ l.length
  · exact .inl (List.prefix_of_prefix_length_le h (List.prefix_append l _) hLength)
  · have hLine : l ++ ['\n'] <+: p := by
      refine List.prefix_of_prefix_length_le ?_ h (by simp; omega)
      exact ⟨rest, by simp⟩
    obtain ⟨q, rfl⟩ := hLine
    refine .inr ⟨q, by simp, ?_⟩
    have hBoth : (l ++ ['\n']) ++ q <+: (l ++ ['\n']) ++ rest := by simpa using h
    exact (List.prefix_append_right_inj _).mp hBoth

theorem trim_of_not_blank {cs : List Char} (h : ∀ c ∈ cs, isBlank c = false) :
    trim (String.ofList cs) = String.ofList cs := by
  have hDrop : ∀ ds : List Char, (∀ c ∈ ds, isBlank c = false) → ds.dropWhile isBlank = ds := by
    intro ds hds
    cases ds with
    | nil => rfl
    | cons d ds => simp [hds d List.mem_cons_self]
  have hReverse : ∀ c ∈ cs.reverse, isBlank c = false := fun c hc => h c (List.mem_reverse.mp hc)
  simp [trim, trimChars, trimStart, trimEnd, hDrop cs h, hDrop cs.reverse hReverse]

theorem trimEnd_prefix_self (q : List Char) : trimEnd q <+: q := by
  have hSuffix := List.reverse_prefix.mpr (List.dropWhile_suffix isBlank (l := q.reverse))
  rwa [List.reverse_reverse] at hSuffix

theorem trimChars_cons {c : Char} {q : List Char} (h : isBlank c = false) :
    trimChars (c :: q) = c :: trimEnd q := by
  have hStart : trimStart (c :: q) = c :: q := List.dropWhile_cons_of_neg (by simp [h])
  rw [trimChars, hStart, trimEnd, trimEnd, List.reverse_cons, List.dropWhile_append]
  split
  · rename_i hEmpty
    rw [List.isEmpty_iff.mp hEmpty]
    simp [h]
  · simp

/-! ## Bytes -/

theorem toList_loop (bytes done : Bytes) {i n : Nat} (h : bytes.length = i + n) :
    ByteArray.toList.loop bytes.toByteArray i done = done.reverse ++ bytes.drop i := by
  induction n generalizing i done with
  | zero =>
    rw [ByteArray.toList.loop, if_neg (by simp [h]), List.drop_eq_nil_of_le (by omega),
      List.append_nil]
  | succ n ih =>
    have hi : i < bytes.length := by omega
    have hByte : bytes.toByteArray.get! i = bytes[i] := by simp [ByteArray.get!, hi]
    rw [ByteArray.toList.loop, if_pos (by simpa using hi), ih _ (by omega), hByte,
      List.drop_eq_getElem_cons hi, List.reverse_cons, List.append_assoc, List.singleton_append]

theorem encode_ofList (cs : List Char) :
    encode (String.ofList cs) = cs.flatMap String.utf8EncodeChar := by
  rw [encode, String.toUTF8, String.toByteArray_ofList, List.utf8Encode, ByteArray.toList,
    toList_loop _ [] (Nat.zero_add _).symm]
  rfl

theorem encode_append (s t : String) : encode (s ++ t) = encode s ++ encode t := by
  rw [← String.ofList_toList (s := s), ← String.ofList_toList (s := t), ← String.ofList_append,
    encode_ofList, encode_ofList, encode_ofList, List.flatMap_append]

theorem encode_nil : encode (String.ofList []) = [] := encode_ofList []

theorem encode_cons (c : Char) (cs : List Char) :
    encode (String.ofList (c :: cs)) = String.utf8EncodeChar c ++ encode (String.ofList cs) := by
  rw [encode_ofList, encode_ofList, List.flatMap_cons]

theorem encode_front (front back : List Char) :
    encode (String.ofList (front ++ back)) =
      encode (String.ofList front) ++ encode (String.ofList back) := by
  rw [String.ofList_append, encode_append]

theorem encode_prefix_encode {s text : List Char} (h : s <+: text) :
    encode (String.ofList s) <+: encode (String.ofList text) := by
  obtain ⟨rest, rfl⟩ := h
  rw [encode_front]
  exact List.prefix_append _ _

theorem decode?_encode (s : String) : decode? (encode s) = some s := by
  have hBytes : (encode s).toByteArray = s.toByteArray := by
    rw [← String.ofList_toList (s := s), encode_ofList, String.toByteArray_ofList, List.utf8Encode]
  rw [decode?, hBytes, String.fromUTF8?, dif_pos s.isValidUTF8]
  rfl

theorem eq_encode_of_decode? {bytes : Bytes} {s : String} (h : decode? bytes = some s) :
    bytes = encode s := by
  rw [decode?, String.fromUTF8?] at h
  split at h
  · cases h
    rw [encode, String.toUTF8, String.fromUTF8, ByteArray.toList,
      toList_loop bytes [] (Nat.zero_add _).symm]
    rfl
  · cases h

theorem encode_of_ascii {cs : List Char} (h : ∀ c ∈ cs, c.toNat < 128) :
    encode (String.ofList cs) = cs.map fun c => UInt8.ofNat c.toNat := by
  rw [encode_ofList]
  induction cs with
  | nil => rfl
  | cons c cs ih =>
    have hc : c.toNat ≤ 127 := Nat.le_of_lt_succ (h c List.mem_cons_self)
    rw [List.flatMap_cons, ih fun d hd => h d (List.mem_cons_of_mem _ hd)]
    simp [String.utf8EncodeChar, hc]

/-! ## Digits -/

theorem isDigit_of_mem_toDigits {n : Nat} {c : Char} (h : c ∈ Nat.toDigits 10 n) :
    c.isDigit = true :=
  Nat.isDigit_of_mem_toDigits (by decide) (by decide) h

theorem exists_toDigits (n : Nat) :
    ∃ d ds, Nat.toDigits 10 n = d :: ds ∧ d.isDigit = true := by
  cases h : Nat.toDigits 10 n with
  | nil => exact absurd h Nat.toDigits_ne_nil
  | cons d ds => exact ⟨d, ds, rfl, isDigit_of_mem_toDigits (h ▸ List.mem_cons_self)⟩

theorem ne_of_isDigit {c d : Char} (hc : c.isDigit = true) (hd : d.isDigit = false) : c ≠ d := by
  rintro rfl
  rw [hc] at hd
  cases hd

theorem bounds_of_isDigit {c : Char} (h : c.isDigit = true) : 48 ≤ c.toNat ∧ c.toNat ≤ 57 := by
  simp only [Char.isDigit, Bool.and_eq_true, decide_eq_true_eq, ge_iff_le, UInt32.le_iff_toNat_le] at h
  exact h

theorem natOfDigits_toDigits (n : Nat) : natOfDigits (Nat.toDigits 10 n) = n :=
  Nat.ofDigitChars_ten_toDigits

theorem boundedNat?_toDigits {bound n : Nat} (h : n < bound) :
    boundedNat? bound (Nat.toDigits 10 n) = some n := by
  have hAll : (Nat.toDigits 10 n).all Char.isDigit = true :=
    List.all_eq_true.mpr fun c hc => isDigit_of_mem_toDigits hc
  obtain ⟨d, ds, hDigits, hDigit⟩ := exists_toDigits n
  have hPlus : d ≠ '+' := ne_of_isDigit hDigit (by decide)
  have hValue := natOfDigits_toDigits n
  rw [hDigits] at hAll hValue ⊢
  simp_all [boundedNat?]

theorem boundedNat?_eq_some_iff {bound n : Nat} {cs : List Char} :
    boundedNat? bound cs = some n ↔ ∃ ds, (cs = ds ∨ cs = '+' :: ds) ∧ ds ≠ [] ∧
      (∀ c ∈ ds, c.isDigit = true) ∧ natOfDigits ds = n ∧ n < bound := by
  have hDigits : ∀ ds : List Char, (if !ds.isEmpty && ds.all Char.isDigit &&
      decide (natOfDigits ds < bound) then some (natOfDigits ds) else none) = some n ↔
      ds ≠ [] ∧ (∀ c ∈ ds, c.isDigit = true) ∧ natOfDigits ds = n ∧ n < bound := by
    intro ds
    simp only [Option.ite_none_right_eq_some, Bool.and_eq_true, Bool.not_eq_true',
      List.isEmpty_eq_false_iff, List.all_eq_true, decide_eq_true_eq, Option.some.injEq]
    constructor
    · rintro ⟨⟨⟨hNe, hAll⟩, hLess⟩, rfl⟩
      exact ⟨hNe, hAll, rfl, hLess⟩
    · rintro ⟨hNe, hAll, rfl, hLess⟩
      exact ⟨⟨⟨hNe, hAll⟩, hLess⟩, rfl⟩
  unfold boundedNat?
  rw [hDigits]
  split
  · rename_i rest
    constructor
    · intro h
      exact ⟨rest, .inr rfl, h⟩
    · rintro ⟨ds, rfl | hSign, hNe, hAll, h⟩
      · exact absurd (hAll '+' List.mem_cons_self) (by decide)
      · cases hSign
        exact ⟨hNe, hAll, h⟩
  · rename_i hSign
    constructor
    · intro h
      exact ⟨cs, .inl rfl, h⟩
    · rintro ⟨ds, rfl | rfl, h⟩
      · exact h
      · exact absurd rfl (hSign ds)

theorem lt_of_boundedNat? {bound n : Nat} {cs : List Char} (h : boundedNat? bound cs = some n) :
    n < bound := by
  obtain ⟨_, _, _, _, _, hLess⟩ := boundedNat?_eq_some_iff.mp h
  exact hLess

end Reanalysis.Text
