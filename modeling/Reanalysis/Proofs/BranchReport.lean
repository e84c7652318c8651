import Mathlib.Data.List.TakeWhile
import Mathlib.Order.Lattice.Nat
import Reanalysis.Proofs.Text
import Reanalysis.Run.BranchReport

/-!
# Which counts of a fuzzer are found

Several workers write to one output, so a line may hold several reports. Only the first place of a line is
looked at, and it may be one whose number is too large or is written in other digits than those of ASCII.
The count that is found is the largest one among the lines' first places; it is the largest report of the
output exactly if that stands in the first place of a line.
-/

namespace Reanalysis

/-! ## Digits -/

namespace Text

theorem isDecimal_of_isDigit {c : Char} (h : c.isDigit = true) : isDecimal c = true := by
  have hBounds := bounds_of_isDigit h
  exact List.any_eq_true.mpr ⟨(0x30, 0x39), List.mem_cons_self, by simp [hBounds]⟩

theorem isBlank_eq_false_of_isDecimal {c : Char} (h : isDecimal c = true) : isBlank c = false := by
  by_contra hBlank
  rw [Bool.not_eq_false, isBlank] at hBlank
  simp only [Bool.or_eq_true, Bool.and_eq_true, decide_eq_true_eq, beq_iff_eq] at hBlank
  have hCode : c.toNat ∈ List.range' 9 5 ++ List.range' 0x2000 11 ++
      [32, 0x85, 0xa0, 0x1680, 0x2028, 0x2029, 0x202f, 0x205f, 0x3000] := by
    simp only [List.mem_append, List.mem_range'_1, List.mem_cons]
    omega
  have hNone : (List.range' 9 5 ++ List.range' 0x2000 11 ++
      [32, 0x85, 0xa0, 0x1680, 0x2028, 0x2029, 0x202f, 0x205f, 0x3000]).all
        (fun n => !isDecimal (Char.ofNat n)) = true := by decide
  have hOut := List.all_eq_true.mp hNone _ hCode
  rw [Char.ofNat_toNat, h] at hOut
  cases hOut

end Text

namespace BranchReport

variable {p : Char → Bool} {c : Char} {cs before digits : List Char} {n : Nat}

/-! ## Places in a line -/

/-- Behind `before` the line has the label, blanks, and as many digits as there are. What counts as a
digit is left open. -/
def HasAt (p : Char → Bool) (line before digits : List Char) : Prop :=
  ∃ blanks after, line = before ++ (label ++ (blanks ++ (digits ++ after))) ∧
    (∀ c ∈ blanks, Text.isBlank c = true) ∧ digits ≠ [] ∧ (∀ c ∈ digits, p c = true) ∧
    ∀ c ∈ after.head?, p c = false

/-- The digits stand in the first place of the line. -/
def Leads (line digits : List Char) : Prop :=
  ∃ before, HasAt Text.isDecimal line before digits ∧
    ∀ before' digits', HasAt Text.isDecimal line before' digits' → before.length ≤ before'.length

/-- The line reports this count, in whatever place: a number of 64 bits in ASCII digits. -/
def Reports (line : List Char) (n : Nat) : Prop :=
  ∃ before digits, HasAt Char.isDigit line before digits ∧ Text.natOfDigits digits = n ∧
    n < 0x10000000000000000

/-- The line reports this count in its first place. -/
def Counts (line : List Char) (n : Nat) : Prop :=
  ∃ digits, Leads line digits ∧ (∀ c ∈ digits, c.isDigit = true) ∧ Text.natOfDigits digits = n ∧
    n < 0x10000000000000000

theorem not_hasAt_nil : ¬ HasAt p [] before digits := by
  rintro ⟨blanks, after, hLine, -⟩
  have hLabel : label ≠ [] := by decide
  exact hLabel (List.append_eq_nil_iff.mp (List.append_eq_nil_iff.mp hLine.symm).2).1

theorem hasAt_cons_iff : HasAt p (c :: cs) before digits ↔
    before = [] ∧ HasAt p (c :: cs) [] digits ∨
      ∃ front, before = c :: front ∧ HasAt p cs front digits := by
  cases before with
  | nil => simp
  | cons d front =>
    constructor
    · rintro ⟨blanks, after, hLine, hRest⟩
      obtain ⟨rfl, hTail⟩ := List.cons.inj hLine
      exact .inr ⟨front, rfl, blanks, after, hTail, hRest⟩
    · rintro (⟨hNil, -⟩ | ⟨_, hFront, blanks, after, hTail, hRest⟩)
      · cases hNil
      · obtain ⟨rfl, rfl⟩ := List.cons.inj hFront
        exact ⟨blanks, after, congrArg (d :: ·) hTail, hRest⟩

theorem takeWhile_of_head? {after : List Char} (h : ∀ c ∈ after.head?, p c = false) :
    after.takeWhile p = [] := by
  cases after with
  | nil => rfl
  | cons c after => exact List.takeWhile_cons_of_neg (by simp [h c rfl])

theorem head?_dropWhile (cs : List Char) : ∀ c ∈ (cs.dropWhile p).head?, p c = false := by
  intro c hc
  have hNot := List.head?_dropWhile_not p cs
  rw [hc] at hNot
  exact hNot

theorem digitsHere?_eq_some_iff :
    digitsHere? cs = some digits ↔ HasAt Text.isDecimal cs [] digits := by
  rw [digitsHere?]
  constructor
  · intro h
    simp only [Option.ite_none_right_eq_some, Option.ite_none_left_eq_some, List.isPrefixOf_iff_prefix,
      Option.some.injEq, List.isEmpty_iff] at h
    obtain ⟨⟨rest, rfl⟩, hNe, rfl⟩ := h
    rw [List.drop_left, Text.trimStart] at hNe ⊢
    refine ⟨rest.takeWhile Text.isBlank, (rest.dropWhile Text.isBlank).dropWhile Text.isDecimal, ?_,
      fun c hc => List.mem_takeWhile_imp hc, hNe, fun c hc => List.mem_takeWhile_imp hc,
      head?_dropWhile _⟩
    rw [List.takeWhile_append_dropWhile, List.takeWhile_append_dropWhile, List.nil_append]
  · rintro ⟨blanks, after, rfl, hBlanks, hNe, hDigits, hAfter⟩
    have hTrim : Text.trimStart (blanks ++ (digits ++ after)) = digits ++ after := by
      obtain ⟨d, ds, rfl⟩ := List.exists_cons_of_ne_nil hNe
      have hDigit := Text.isBlank_eq_false_of_isDecimal (hDigits d List.mem_cons_self)
      rw [Text.trimStart, List.dropWhile_append_of_pos hBlanks, List.cons_append,
        List.dropWhile_cons_of_neg (by simp [hDigit])]
    have hTake : (digits ++ after).takeWhile Text.isDecimal = digits := by
      rw [List.takeWhile_append_of_pos hDigits, takeWhile_of_head? hAfter, List.append_nil]
    have hLabel : label.isPrefixOf (label ++ (blanks ++ (digits ++ after))) = true :=
      List.isPrefixOf_iff_prefix.mpr (List.prefix_append _ _)
    rw [List.nil_append, if_pos hLabel, List.drop_left, hTrim, hTake]
    exact if_neg (by simpa using hNe)

theorem firstDigits?_eq_some_iff : firstDigits? cs = some digits ↔ Leads cs digits := by
  induction cs with
  | nil =>
    constructor
    · intro h
      cases h
    · rintro ⟨before, hHas, -⟩
      exact absurd hHas not_hasAt_nil
  | cons c cs ih =>
    rw [firstDigits?]
    cases hHere : digitsHere? (c :: cs) with
    | some found =>
      have hFound : HasAt Text.isDecimal (c :: cs) [] found := digitsHere?_eq_some_iff.mp hHere
      rw [Option.orElse_some]
      constructor
      · intro hSame
        cases hSame
        exact ⟨[], hFound, fun _ _ _ => Nat.zero_le _⟩
      · rintro ⟨before, hHas, hFirst⟩
        obtain rfl : before = [] := List.length_eq_zero_iff.mp (Nat.le_zero.mp (hFirst [] found hFound))
        rw [← hHere, digitsHere?_eq_some_iff.mpr hHas]
    | none =>
      have hNotHere : ∀ ds, ¬ HasAt Text.isDecimal (c :: cs) [] ds := by
        intro ds hHas
        rw [digitsHere?_eq_some_iff.mpr hHas] at hHere
        cases hHere
      rw [Option.orElse_none, ih]
      constructor
      · rintro ⟨front, hHas, hFirst⟩
        refine ⟨c :: front, hasAt_cons_iff.mpr (.inr ⟨front, rfl, hHas⟩), ?_⟩
        intro before' digits' hHas'
        rcases hasAt_cons_iff.mp hHas' with ⟨-, hHere'⟩ | ⟨front', rfl, hLater⟩
        · exact absurd hHere' (hNotHere _)
        · exact Nat.succ_le_succ (hFirst front' digits' hLater)
      · rintro ⟨before, hHas, hFirst⟩
        rcases hasAt_cons_iff.mp hHas with ⟨-, hHere'⟩ | ⟨front, rfl, hLater⟩
        · exact absurd hHere' (hNotHere _)
        · refine ⟨front, hLater, fun front' digits' hHas' => Nat.le_of_succ_le_succ ?_⟩
          exact hFirst (c :: front') digits' (hasAt_cons_iff.mpr (.inr ⟨front', rfl, hHas'⟩))

/-! ## Counts -/

theorem lineCount?_eq_some_iff {line : String} : lineCount? line = some n ↔ Counts line.toList n := by
  rw [lineCount?, Option.bind_eq_some_iff]
  refine exists_congr fun digits => ?_
  rw [firstDigits?_eq_some_iff, Text.boundedNat?_eq_some_iff]
  refine and_congr_right fun hLeads => ?_
  obtain ⟨before, ⟨blanks, after, -, -, hNe, hDecimal, -⟩, -⟩ := hLeads
  constructor
  · rintro ⟨ds, rfl | rfl, -, hDigits, hValue, hLess⟩
    · exact ⟨hDigits, hValue, hLess⟩
    · exact absurd (hDecimal '+' List.mem_cons_self) (by decide)
  · rintro ⟨hDigits, hValue, hLess⟩
    exact ⟨digits, .inl rfl, hNe, hDigits, hValue, hLess⟩

theorem Counts.reports (h : Counts cs n) : Reports cs n := by
  obtain ⟨digits, ⟨before, ⟨blanks, after, hLine, hBlanks, hNe, -, hAfter⟩, -⟩, hDigits, hValue⟩ := h
  refine ⟨before, digits, ⟨blanks, after, hLine, hBlanks, hNe, hDigits, fun c hc => ?_⟩, hValue⟩
  -- What is no digit at all is none of ASCII.
  by_contra hDigit
  rw [Bool.not_eq_false] at hDigit
  exact absurd (Text.isDecimal_of_isDigit hDigit) (by simp [hAfter c hc])

/-! ## The largest count -/

/-- The greatest number of a set, if it has any numbers. -/
def IsLargest (S : Set Nat) : Option Nat → Prop
  | none => S = ∅
  | some n => IsGreatest S n

theorem IsLargest.eq_some {S : Set Nat} {found : Option Nat} (h : IsLargest S found)
    (hn : IsGreatest S n) : found = some n := by
  cases found with
  | none => exact absurd (h ▸ hn.1) (Set.notMem_empty n)
  | some m => exact congrArg some (h.unique hn)

/-- The counts that an output reports. -/
def reported (output : String) : Set Nat := {n | ∃ line ∈ Text.lines output, Reports line.toList n}

/-- The counts in the first places of lines. -/
def counted (output : String) : Set Nat := {n | ∃ line ∈ Text.lines output, Counts line.toList n}

theorem counted_subset_reported (output : String) : counted output ⊆ reported output := by
  rintro n ⟨line, hLine, hCounts⟩
  exact ⟨line, hLine, hCounts.reports⟩

theorem mem_counted_iff {output : String} :
    n ∈ counted output ↔ n ∈ (Text.lines output).filterMap lineCount? := by
  simp only [List.mem_filterMap, lineCount?_eq_some_iff]
  rfl

theorem isLargest_counted (output : String) : IsLargest (counted output) (largest? output) := by
  rw [largest?]
  cases hMax : ((Text.lines output).filterMap lineCount?).max? with
  | none =>
    rw [List.max?_eq_none_iff] at hMax
    refine Set.eq_empty_iff_forall_notMem.mpr fun n hn => ?_
    rw [mem_counted_iff, hMax] at hn
    exact absurd hn List.not_mem_nil
  | some m =>
    obtain ⟨hMem, hBound⟩ := List.max?_eq_some_iff.mp hMax
    exact ⟨mem_counted_iff.mpr hMem, fun n hn => hBound n (mem_counted_iff.mp hn)⟩

theorem exists_isGreatest_reported {output : String} (h : reported output ≠ ∅) :
    ∃ n, IsGreatest (reported output) n := by
  have hBounded : BddAbove (reported output) := by
    refine ⟨0x10000000000000000, ?_⟩
    rintro n ⟨_, _, _, _, _, _, hLess⟩
    exact hLess.le
  have hNonempty := Set.nonempty_iff_ne_empty.mpr h
  exact ⟨sSup (reported output), Nat.sSup_mem hNonempty hBounded, fun n hn => le_csSup hBounded hn⟩

/-- What is found in an output is the largest count in the first place of a line, and so one of the counts
that are reported. It is the largest of these exactly if that stands in the first place of a line. -/
theorem largest?_finds_largest_report_iff (output : String) :
    IsLargest (counted output) (largest? output) ∧ counted output ⊆ reported output ∧
      (IsLargest (reported output) (largest? output) ↔
        ∀ n, IsGreatest (reported output) n → n ∈ counted output) := by
  have hFound := isLargest_counted output
  have hSubset := counted_subset_reported output
  refine ⟨hFound, hSubset, ?_, ?_⟩
  · intro hLargest n hn
    rw [hLargest.eq_some hn] at hFound
    exact hFound.1
  · intro hFirst
    by_cases hEmpty : reported output = ∅
    · have hNone : counted output = ∅ := Set.subset_eq_empty hSubset hEmpty
      cases hCount : largest? output with
      | none => exact hEmpty
      | some m =>
        rw [hCount, hNone] at hFound
        exact absurd hFound.1 (Set.notMem_empty m)
    · obtain ⟨n, hn⟩ := exists_isGreatest_reported hEmpty
      have hGreatest : IsGreatest (counted output) n :=
        ⟨hFirst n hn, fun m hm => hn.2 (hSubset hm)⟩
      rw [hFound.eq_some hGreatest]
      exact hn

/-- The second report of a line is larger than the first one. -/
theorem later_report_of_line_missed :
    largest? "branch: 3 branch: 9" = some 3 ∧ 9 ∈ reported "branch: 3 branch: 9" ∧
      ¬ IsLargest (reported "branch: 3 branch: 9") (largest? "branch: 3 branch: 9") := by
  have hFound : largest? "branch: 3 branch: 9" = some 3 := by decide +kernel
  have hReported : 9 ∈ reported "branch: 3 branch: 9" := by
    have hBlank : ∀ c ∈ [' '], Text.isBlank c = true := List.forall_mem_singleton.mpr (by decide)
    have hDigit : ∀ c ∈ ['9'], c.isDigit = true := List.forall_mem_singleton.mpr (by decide)
    exact ⟨"branch: 3 branch: 9", by decide +kernel, "branch: 3 ".toList, ['9'],
      ⟨[' '], [], by decide, hBlank, by decide, hDigit, by simp⟩, by decide, by decide⟩
  refine ⟨hFound, hReported, fun hLargest => ?_⟩
  rw [hFound] at hLargest
  exact absurd (hLargest.2 hReported) (by decide)

end BranchReport

end Reanalysis
