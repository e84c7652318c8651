import Mathlib.Data.Nat.Digits.Defs
import Mathlib.Tactic.IntervalCases
import Reanalysis.Clock.Instant
import Reanalysis.Proofs.Text

/-!
# Instants read back

The date that a number of days leads to is a date of the calendar, and leads back to that number.
So an instant whose year is in range is read back from its text.
-/

namespace Reanalysis.Instant

/-! ## The calendar -/

/-- The year of an era is found from the day of the era, counted in centuries, cycles of four years
and days. Only the last year of a cycle has 366 days. -/
theorem yearOfEra_of_cycle {century cycle day inEra year : Int} (hCentury : 0 ≤ century ∧ century ≤ 3)
    (hCycle : 0 ≤ cycle ∧ cycle ≤ 24) (hDay : 0 ≤ day ∧ day ≤ 1460)
    (hEra : inEra = 36524 * century + 1461 * cycle + day) (hLast : cycle = 24 → day ≤ 1459)
    (hYear : year = (inEra - inEra / 1460 + inEra / 36524 - inEra / 146096) / 365) :
    ∃ t, 0 ≤ t ∧ t ≤ 3 ∧ year = 100 * century + 4 * cycle + t ∧ 365 * t ≤ day ∧
      day ≤ 365 * t + 364 + t / 3 := by
  have hOfCentury : inEra / 36524 = century := by omega
  have hOfEra : inEra / 146096 = 0 := by omega
  have hOfCycle : inEra / 1460 = 25 * century + cycle + (24 * century + cycle + day) / 1460 := by
    omega
  refine ⟨(day - (24 * century + cycle + day) / 1460) / 365, by omega, by omega, ?_, by omega,
    by omega⟩
  rw [hYear, hOfCentury, hOfEra, hOfCycle]
  omega

/-- What is left of the day of an era after full years. A day too many needs a leap year. -/
theorem dayOfYear_bounds {inEra year : Int} (hEra : 0 ≤ inEra ∧ inEra < 146097)
    (hYear : year = (inEra - inEra / 1460 + inEra / 36524 - inEra / 146096) / 365) :
    0 ≤ year ∧ year ≤ 399 ∧ 0 ≤ inEra - (365 * year + year / 4 - year / 100) ∧
      inEra - (365 * year + year / 4 - year / 100) ≤ 365 ∧
      (inEra - (365 * year + year / 4 - year / 100) = 365 →
        (year + 1) % 4 = 0 ∧ ((year + 1) % 100 ≠ 0 ∨ (year + 1) % 400 = 0)) := by
  by_cases hLast : inEra = 146096
  · subst hLast
    have hYear : year = 399 := hYear
    subst hYear
    decide
  · have hSplit : ∃ century cycle day, (0 ≤ century ∧ century ≤ 3) ∧ (0 ≤ cycle ∧ cycle ≤ 24) ∧
        (0 ≤ day ∧ day ≤ 1460) ∧ inEra = 36524 * century + 1461 * cycle + day ∧
        (cycle = 24 → day ≤ 1459) :=
      ⟨inEra / 36524, inEra % 36524 / 1461, inEra % 36524 % 1461, by omega, by omega, by omega,
        by omega, by omega⟩
    obtain ⟨century, cycle, day, hCentury, hCycle, hDay, hParts, hEnd⟩ := hSplit
    obtain ⟨t, hLow, hHigh, hSum, hFrom, hTo⟩ :=
      yearOfEra_of_cycle hCentury hCycle hDay hParts hEnd hYear
    clear hYear
    have hFours : year / 4 = 25 * century + cycle := by omega
    have hHundreds : year / 100 = century := by omega
    have hLeft : inEra - (365 * year + year / 4 - year / 100) = day - 365 * t := by omega
    rw [hLeft]
    clear hFours hHundreds hLeft
    refine ⟨by omega, by omega, by omega, by omega, fun hLong => ?_⟩
    have hLastYear : t = 3 := by omega
    have hShort : cycle ≤ 23 := by omega
    subst hLastYear
    refine ⟨by omega, .inl ?_⟩
    clear hLast hFrom hTo hParts
    omega

def monthFromMarch (shifted : Int) : Nat := (if shifted < 10 then shifted + 3 else shifted - 9).toNat

theorem monthLength_fromMarch (year : Int) {shifted : Int} (h : 0 ≤ shifted ∧ shifted ≤ 10) :
    (monthLength year (monthFromMarch shifted) : Int) =
      (153 * (shifted + 1) + 2) / 5 - (153 * shifted + 2) / 5 := by
  obtain ⟨hLow, hHigh⟩ := h
  interval_cases shifted <;> rfl

/-- Counted from March, the day too many of a leap year comes last. -/
theorem dayOfMonth_bounds {ofYear shifted : Int} (h : 0 ≤ ofYear ∧ ofYear ≤ 365)
    (hShifted : shifted = (5 * ofYear + 2) / 153) (year : Int)
    (hLeap : ofYear = 365 → isLeapYear year = true) :
    (0 ≤ shifted ∧ shifted ≤ 11) ∧ 1 ≤ ofYear - (153 * shifted + 2) / 5 + 1 ∧
      ofYear - (153 * shifted + 2) / 5 + 1 ≤ monthLength year (monthFromMarch shifted) := by
  refine ⟨by omega, by omega, ?_⟩
  by_cases hLast : shifted = 11
  · subst hLast
    have hMonth : monthFromMarch 11 = 2 := rfl
    have hFebruary : monthLength year 2 = if isLeapYear year then 29 else 28 := rfl
    rw [hMonth, hFebruary]
    by_cases hLong : ofYear = 365
    · rw [hLeap hLong, if_pos rfl]
      omega
    · split <;> omega
  · rw [monthLength_fromMarch year (by omega)]
    omega

/-- The parts that a date is put together from. -/
structure IsDate (days era ofEra shifted day : Int) : Prop where
  yearBounds : 0 ≤ ofEra ∧ ofEra ≤ 399
  monthBounds : 0 ≤ shifted ∧ shifted ≤ 11
  dayBounds : 1 ≤ day ∧ day ≤ monthLength (ofEra + era * 400 + (if 10 ≤ shifted then 1 else 0))
    (monthFromMarch shifted)
  count : days + 719468 = era * 146097 + (365 * ofEra + ofEra / 4 - ofEra / 100) +
    ((153 * shifted + 2) / 5 + day - 1)

theorem dateOfDays_eq (days : Int) : ∃ era ofEra shifted day, IsDate days era ofEra shifted day ∧
    dateOfDays days = (ofEra + era * 400 + (if 10 ≤ shifted then 1 else 0), monthFromMarch shifted,
      day.toNat) := by
  obtain ⟨era, hEra⟩ : ∃ era, era = (days + 719468) / 146097 := ⟨_, rfl⟩
  obtain ⟨inEra, hInEra⟩ : ∃ inEra, inEra = days + 719468 - era * 146097 := ⟨_, rfl⟩
  obtain ⟨ofEra, hOfEra⟩ :
    ∃ ofEra, ofEra = (inEra - inEra / 1460 + inEra / 36524 - inEra / 146096) / 365 := ⟨_, rfl⟩
  obtain ⟨ofYear, hOfYear⟩ :
    ∃ ofYear, ofYear = inEra - (365 * ofEra + ofEra / 4 - ofEra / 100) := ⟨_, rfl⟩
  obtain ⟨shifted, hShifted⟩ : ∃ shifted, shifted = (5 * ofYear + 2) / 153 := ⟨_, rfl⟩
  obtain ⟨hYear, hYear', hFrom, hTo, hLeap⟩ := dayOfYear_bounds (by omega) hOfEra
  rw [← hOfYear] at hFrom hTo hLeap
  have hYearLeap : ofYear = 365 →
      isLeapYear (ofEra + era * 400 + (if 10 ≤ shifted then 1 else 0)) = true := by
    intro hLong
    obtain ⟨hFour, hHundred⟩ := hLeap hLong
    have hFebruary : 10 ≤ shifted := by omega
    rw [if_pos hFebruary]
    simp only [isLeapYear, Bool.and_eq_true, Bool.or_eq_true, decide_eq_true_eq]
    change (ofEra + era * 400 + 1) % 4 = 0 ∧
      ((ofEra + era * 400 + 1) % 100 ≠ 0 ∨ (ofEra + era * 400 + 1) % 400 = 0)
    refine ⟨by omega, hHundred.imp (fun h => ?_) (fun h => ?_)⟩ <;> omega
  obtain ⟨hMonth, hDay, hDay'⟩ := dayOfMonth_bounds ⟨hFrom, hTo⟩ hShifted _ hYearLeap
  refine ⟨era, ofEra, shifted, ofYear - (153 * shifted + 2) / 5 + 1, ⟨⟨hYear, hYear'⟩, hMonth,
    ⟨hDay, hDay'⟩, ?_⟩, ?_⟩
  · omega
  · have hEarly : (if shifted < 10 then shifted + 3 else shifted - 9) ≤ 2 ↔ 10 ≤ shifted := by
      split <;> omega
    have hDiv : ∀ a b : Int, 0 ≤ b → a.fdiv b = a / b := fun a b h =>
      Int.fdiv_eq_ediv_of_nonneg a h
    have hYears : (inEra - inEra.fdiv 1460 + inEra.fdiv 36524 - inEra.fdiv 146096).fdiv 365 = ofEra := by
      simp only [hDiv _ 1460 (by decide), hDiv _ 36524 (by decide), hDiv _ 146096 (by decide),
        hDiv _ 365 (by decide), hOfEra]
    have hDays : inEra - (365 * ofEra + ofEra.fdiv 4 - ofEra.fdiv 100) = ofYear := by
      rw [hDiv _ 4 (by decide), hDiv _ 100 (by decide), hOfYear]
    have hMonths : (5 * ofYear + 2).fdiv 153 = shifted := by rw [hDiv _ 153 (by decide), hShifted]
    have hEras : (days + 719468).fdiv 146097 = era := by rw [hDiv _ 146097 (by decide), hEra]
    simp only [dateOfDays, hEras, ← hInEra, hYears, hDays, hMonths, hDiv _ 5 (by decide),
      if_congr hEarly rfl rfl, monthFromMarch]

/-- The month and the day are those of a calendar, and the date leads back to the number of days. -/
theorem daysOfDate_dateOfDays (days : Int) :
    (1 ≤ (dateOfDays days).2.1 ∧ (dateOfDays days).2.1 ≤ 12) ∧
      (1 ≤ (dateOfDays days).2.2 ∧
        (dateOfDays days).2.2 ≤ monthLength (dateOfDays days).1 (dateOfDays days).2.1) ∧
      daysOfDate (dateOfDays days).1 (dateOfDays days).2.1 (dateOfDays days).2.2 = days := by
  obtain ⟨era, ofEra, shifted, day, hDate, hEq⟩ := dateOfDays_eq days
  obtain ⟨hYear, hMonth, hDay, hCount⟩ := hDate
  have hMonthNumber : (1 ≤ monthFromMarch shifted ∧ monthFromMarch shifted ≤ 12) ∧
      (monthFromMarch shifted ≤ 2 ↔ 10 ≤ shifted) ∧
      (if 2 < monthFromMarch shifted then (monthFromMarch shifted : Int) - 3
        else monthFromMarch shifted + 9) = shifted := by
    rw [monthFromMarch]
    split <;> omega
  obtain ⟨hBounds, hEarly, hBack⟩ := hMonthNumber
  rw [hEq]
  dsimp only
  refine ⟨hBounds, ⟨by omega, by omega⟩, ?_⟩
  have hDiv : ∀ a b : Int, 0 ≤ b → a.fdiv b = a / b := fun a b h => Int.fdiv_eq_ediv_of_nonneg a h
  have hYears : (if monthFromMarch shifted ≤ 2 then
      ofEra + era * 400 + (if 10 ≤ shifted then 1 else 0) - 1
      else ofEra + era * 400 + (if 10 ≤ shifted then 1 else 0)) = ofEra + era * 400 := by
    rw [if_congr hEarly rfl rfl]
    split <;> omega
  have hEra : (ofEra + era * 400) / 400 = era := by omega
  have hOfEra : ofEra + era * 400 - era * 400 = ofEra := by omega
  simp only [daysOfDate, hYears, hBack, hDiv _ 400 (by decide), hDiv _ 5 (by decide),
    hDiv _ 4 (by decide), hDiv _ 100 (by decide), hEra, hOfEra]
  omega

/-! ## Digits -/

open Text (Scanner natOfDigits)

theorem isDigit_of_mem_padded {width n : Nat} {c : Char} (h : c ∈ padded width n) :
    c.isDigit = true := by
  rw [padded, List.mem_append, List.mem_replicate] at h
  rcases h with ⟨-, rfl⟩ | h
  · decide
  · exact Text.isDigit_of_mem_toDigits h

theorem padded_ne_nil (width n : Nat) : padded width n ≠ [] :=
  List.append_ne_nil_of_right_ne_nil _ Nat.toDigits_ne_nil

theorem length_padded {width n : Nat} (hWidth : 0 < width) (h : n < 10 ^ width) :
    (padded width n).length = width := by
  have hLength := Nat.toDigits_length 10 n width hWidth h
  rw [padded, List.length_append, List.length_replicate]
  omega

theorem natOfDigits_padded (width n : Nat) : natOfDigits (padded width n) = n := by
  have hZeros : ∀ k ds, natOfDigits (List.replicate k '0' ++ ds) = natOfDigits ds := by
    intro k ds
    induction k with
    | zero => rfl
    | succ k ih =>
      rw [← ih, List.replicate_succ, List.cons_append, natOfDigits, List.foldl_cons]
      rfl
  rw [padded, hZeros, Text.natOfDigits_toDigits]

theorem takeWhile_append_of_digits {ds rest : List Char} (h : ∀ c ∈ ds, c.isDigit = true) :
    (ds ++ rest).takeWhile Char.isDigit = ds ++ rest.takeWhile Char.isDigit :=
  List.takeWhile_append_of_pos h

/-! ## Scanning -/

theorem run_skipBlanks {c : Char} {cs : List Char} (h : Text.isBlank c = false) :
    skipBlanks.run (c :: cs) = some ((), c :: cs) := by
  change some ((), Text.trimStart (c :: cs)) = _
  rw [Text.trimStart, List.dropWhile_cons_of_neg (by simp [h])]

theorem run_number {most : Option Nat} {ds rest : List Char} (hDigits : ∀ c ∈ ds, c.isDigit = true)
    (hNe : ds ≠ []) (hMost : most.elim (ds ++ rest.takeWhile Char.isDigit)
      (ds ++ rest.takeWhile Char.isDigit).take = ds) :
    (number most).run (ds ++ rest) = some (natOfDigits ds, rest) := by
  have hRun : (most.elim ((ds ++ rest).takeWhile Char.isDigit)
      ((ds ++ rest).takeWhile Char.isDigit).take) = ds := by
    rw [takeWhile_append_of_digits hDigits, hMost]
  simp [number, hRun, hNe]

theorem not_isBlank_of_isDigit {c : Char} (h : c.isDigit = true) : Text.isBlank c = false := by
  have hRange := Text.bounds_of_isDigit h
  simp only [Text.isBlank, Bool.or_eq_false_iff, Bool.and_eq_false_iff, decide_eq_false_iff_not,
    beq_eq_false_iff_ne, ne_eq]
  omega

theorem exists_padded (width n : Nat) : ∃ c cs, padded width n = c :: cs ∧ c.isDigit = true := by
  cases h : padded width n with
  | nil => exact absurd h (padded_ne_nil width n)
  | cons c cs => exact ⟨c, cs, rfl, isDigit_of_mem_padded (h ▸ List.mem_cons_self)⟩

theorem run_padded {width n : Nat} (hWidth : 0 < width) (h : n < 10 ^ width) (rest : List Char) :
    (number (some width)).run (padded width n ++ rest) = some (n, rest) := by
  rw [run_number (fun c => isDigit_of_mem_padded) (padded_ne_nil width n), natOfDigits_padded]
  exact List.take_left' (length_padded hWidth h)

theorem run_field {least most n : Nat} (hLeast : least ≤ n) (hMost : n ≤ most) (hShort : n < 100)
    (rest : List Char) : (field least most).run (padded 2 n ++ rest) = some (n, rest) := by
  obtain ⟨c, cs, hCons, hDigit⟩ := exists_padded 2 n
  have hNumber : (number (some 2)).run (padded 2 n ++ rest) = some (n, rest) :=
    run_padded (by decide) hShort rest
  have hBlank := not_isBlank_of_isDigit hDigit
  rw [hCons, List.cons_append] at hNumber ⊢
  have hIn : ¬ (n < least ∨ most < n) := by omega
  simp [field, run_skipBlanks hBlank, hNumber, hIn]

theorem run_separator {c : Char} (h : Text.isBlank c = false) (rest : List Char) :
    (separator c).run (c :: rest) = some ((), rest) := by
  simp [separator, run_skipBlanks h, Scanner.char, Scanner.anyChar]

theorem run_unlimited {n : Nat} {rest : List Char} (h : ∀ c, rest.head? = some c → c.isDigit = false) :
    (number none).run (padded 4 n ++ rest) = some (n, rest) := by
  rw [run_number (fun c => isDigit_of_mem_padded) (padded_ne_nil 4 n), natOfDigits_padded]
  cases rest with
  | nil => simp
  | cons c rest => simp [h c rfl]

theorem run_year (y : Int) {rest : List Char} (h : ∀ c, rest.head? = some c → c.isDigit = false) :
    year.run (yearChars y ++ rest) = some (y, rest) := by
  rw [yearChars]
  split
  · rename_i hShort
    simp only [Bool.and_eq_true, decide_eq_true_eq] at hShort
    obtain ⟨c, cs, hCons, hDigit⟩ := exists_padded 4 y.toNat
    have hNumber : (number (some 4)).run (padded 4 y.toNat ++ rest) = some (y.toNat, rest) :=
      run_padded (by decide) (by omega) rest
    have hMinus : c ≠ '-' := Text.ne_of_isDigit hDigit (by decide)
    have hPlus : c ≠ '+' := Text.ne_of_isDigit hDigit (by decide)
    rw [hCons, List.cons_append] at hNumber ⊢
    simp [year, run_skipBlanks (not_isBlank_of_isDigit hDigit), Scanner.next?, hMinus, hPlus, hNumber,
      hShort.1]
  · rename_i hLong
    simp only [Bool.and_eq_true, decide_eq_true_eq, not_and_or, not_le] at hLong
    have hNumber := run_unlimited (n := y.natAbs) h
    split
    · rename_i hNegative
      simp [year, run_skipBlanks (c := '-') (by decide), Scanner.next?, Scanner.anyChar, hNumber,
        abs_of_neg hNegative]
    · rename_i hPositive
      simp [year, run_skipBlanks (c := '+') (by decide), Scanner.next?, Scanner.anyChar, hNumber,
        abs_of_nonneg (not_lt.mp hPositive)]

theorem run_fraction {nanos : Nat} (h : nanos < 1000000000) (rest : List Char) :
    fraction.run (fractionChars nanos ++ 'Z' :: rest) = some (nanos, 'Z' :: rest) := by
  have hPoint : ∀ cs : List Char, fraction.run ('.' :: cs) =
      if (cs.takeWhile Char.isDigit).isEmpty then none
      else some (Text.natOfDigits ((cs.takeWhile Char.isDigit).take 9) *
        Nat.pow 10 (9 - ((cs.takeWhile Char.isDigit).take 9).length),
        cs.drop (cs.takeWhile Char.isDigit).length) := by
    intro cs
    cases hNone : (cs.takeWhile Char.isDigit).isEmpty with
    | true =>
      change (if (cs.takeWhile Char.isDigit).isEmpty = true then failure else _ : Scanner Nat).run cs = none
      rw [if_pos hNone]
      rfl
    | false =>
      change (if (cs.takeWhile Char.isDigit).isEmpty = true then failure else _ : Scanner Nat).run cs = _
      rw [if_neg (by simp [hNone])]
      rfl
  have hGroups : ∀ width n : Nat, 0 < width → width ≤ 9 → n < 10 ^ width →
      n * Nat.pow 10 (9 - width) = nanos →
      fraction.run ('.' :: padded width n ++ 'Z' :: rest) = some (nanos, 'Z' :: rest) := by
    intro width n hWidth hNine hn hValue
    have hDigits : (padded width n ++ 'Z' :: rest).takeWhile Char.isDigit = padded width n := by
      rw [takeWhile_append_of_digits fun c => isDigit_of_mem_padded]
      simp
    have hLength := length_padded hWidth hn
    have hTake : (padded width n).take 9 = padded width n := List.take_of_length_le (by omega)
    have hSome : (padded width n).isEmpty = false := List.isEmpty_eq_false_iff.mpr (padded_ne_nil _ _)
    have hRest : (padded width n ++ 'Z' :: rest).drop width = 'Z' :: rest := List.drop_left' hLength
    rw [List.cons_append, hPoint, hDigits, hSome, if_neg Bool.false_ne_true, hTake,
      natOfDigits_padded, hLength, hValue, hRest]
  rw [fractionChars]
  split
  · rename_i hZero
    simp [fraction, Scanner.next?, hZero]
  · split
    · exact hGroups 3 _ (by decide) (by decide) (by omega) (by simp; omega)
    · split
      · exact hGroups 6 _ (by decide) (by decide) (by omega) (by simp; omega)
      · exact hGroups 9 _ (by decide) (by decide) (by omega) (by simp)

theorem run_offset : offset.run ['Z'] = some (0, []) := by
  simp [offset, Scanner.anyChar]

/-! ## Instants -/

/-- The year is in range, and only the last second of a minute is a leap second. -/
structure Representable (t : Instant) : Prop where
  year : yearInRange (dateOfDays (t.seconds.fdiv 86400)).1 = true
  nanos : t.nanos < 1000000000 ∨ t.nanos < 2000000000 ∧ t.seconds.fmod 60 = 59

theorem run_scan {y : Int} {month day hour minute second nanos : Nat} (whole : Int)
    (hYear : yearInRange y = true) (hMonth : 1 ≤ month ∧ month ≤ 12)
    (hDay : 1 ≤ day ∧ day ≤ monthLength y month) (hHour : hour ≤ 23) (hMinute : minute ≤ 59)
    (hSecond : second ≤ 60) (hNanos : nanos < 1000000000)
    (hWhole : daysOfDate y month day * 86400 + hour * 3600 + minute * 60 + min second 59 = whole)
    (hRange : yearInRange (dateOfDays (whole.fdiv 86400)).1 = true) :
    scan.run (yearChars y ++ '-' :: (padded 2 month ++ '-' :: (padded 2 day ++ 'T' ::
      (padded 2 hour ++ ':' :: (padded 2 minute ++ ':' :: (padded 2 second ++
        (fractionChars nanos ++ ['Z']))))))) =
      some (⟨whole, if second = 60 then nanos + 1000000000 else nanos⟩, []) := by
  have hLength : monthLength y month ≤ 31 := by
    rw [monthLength]
    split
    · split <;> decide
    · split <;> decide
  have hDash : ∀ (rest : List Char) (c : Char), ('-' :: rest).head? = some c → c.isDigit = false := by
    rintro rest c ⟨⟩
    decide
  have hMinus := run_separator (c := '-') (by decide)
  have hColon := run_separator (c := ':') (by decide)
  have hAny : ∀ c cs, Scanner.anyChar.run (c :: cs) = some (c, cs) := fun _ _ => rfl
  have hEnd : skipBlanks.run [] = some ((), []) := rfl
  -- The date, the letter between, and the time.
  simp only [scan, StateT.run_bind, Option.bind_eq_bind, Option.bind_some, run_year y (hDash _), hMinus,
    run_field hMonth.1 hMonth.2 (by omega), run_field hDay.1 (by omega : day ≤ 31) (by omega), hAny]
  rw [if_neg (by simp)]
  simp only [StateT.run_bind, Option.bind_eq_bind, Option.bind_some, hColon, StateT.run_get,
    Option.pure_def, run_field (Nat.zero_le hour) hHour (by omega),
    run_field (Nat.zero_le minute) hMinute (by omega), run_field (Nat.zero_le second) hSecond (by omega),
    run_fraction hNanos [], run_skipBlanks (c := 'Z') (by decide), run_offset, hEnd]
  rw [if_neg (by simp [hYear, hDay.2]), sub_zero, hWhole, if_neg (by simp [hRange])]
  rfl

theorem parse?_render {t : Instant} (h : t.Representable) : parse? t.render = some t := by
  obtain ⟨hMonth, hDay, hDays⟩ := daysOfDate_dateOfDays (t.seconds.fdiv 86400)
  have hYear := h.year
  have hRange := h.year
  have hDiv : t.seconds.fdiv 86400 = t.seconds / 86400 := Int.fdiv_eq_ediv_of_nonneg _ (by decide)
  have hMod : t.seconds.fmod 86400 = t.seconds % 86400 := Int.fmod_eq_emod_of_nonneg _ (by decide)
  have hMinutes : t.seconds.fmod 60 = t.seconds % 60 := Int.fmod_eq_emod_of_nonneg _ (by decide)
  have hNanos := h.nanos
  rw [hMinutes] at hNanos
  rw [render, hMod]
  generalize hOfDay : (t.seconds % 86400).toNat = ofDay
  have hLate : ofDay < 86400 := by omega
  generalize hSecond : ofDay % 60 + (if 1000000000 ≤ t.nanos then 1 else 0) = second
  have hSixty : second ≤ 60 := by
    split at hSecond <;> omega
  generalize hDate : dateOfDays (t.seconds.fdiv 86400) = date at hMonth hDay hDays hYear hRange
  obtain ⟨y, month, day⟩ := date
  dsimp only at hMonth hDay hDays hYear hRange
  have hLast : min second 59 = ofDay % 60 := by
    split at hSecond <;> omega
  have hWhole : daysOfDate y month day * 86400 + (ofDay / 3600 : Nat) * 3600 +
      (ofDay / 60 % 60 : Nat) * 60 + (min second 59 : Nat) = t.seconds := by
    rw [hDays, hDiv, hLast]
    omega
  have hScan := run_scan t.seconds hYear hMonth hDay (by omega) (by omega) hSixty
    (Nat.mod_lt t.nanos (by decide)) hWhole (by rw [hDate]; exact hRange)
  have hResult : (if second = 60 then t.nanos % 1000000000 + 1000000000 else t.nanos % 1000000000) =
      t.nanos := by
    split at hSecond <;> split <;> omega
  rw [hResult] at hScan
  rw [parse?, String.toList_ofList]
  simp only [List.append_assoc, List.cons_append, hSecond]
  rw [hScan]
  rfl

end Reanalysis.Instant
