import Mathlib.Data.List.Forall2
import Reanalysis.Proofs.Wire

/-!
# Texts of paths

A path is written as the texts of its segments with dots between them, and the empty path as the
empty text. More is read than is written, as an index may have a plus sign and zeros in front.
`Spells` says what each part of a text stands for. A text is read as the path that its parts spell,
or refused for the first part that spells nothing.
-/

namespace Reanalysis

namespace Text

/-- The parts of a text between the occurrences of a mark. -/
structure Parted (mark : Char) (cs : List Char) (parts : List (List Char)) : Prop where
  nonempty : parts ≠ []
  unmarked : ∀ part ∈ parts, mark ∉ part
  joined : join mark parts = cs

theorem not_mem_of_mem_split {mark : Char} {cs part : List Char} (h : part ∈ split mark cs) :
    mark ∉ part := by
  induction cs generalizing part with
  | nil =>
    rw [split, List.mem_singleton] at h
    subst h
    exact List.not_mem_nil
  | cons c cs ih =>
    rw [split] at h
    split at h
    · rename_i hSplit
      exact absurd hSplit (split_ne_nil mark cs)
    · rename_i first rest hSplit
      rw [hSplit] at ih
      split at h
      · rcases List.mem_cons.mp h with rfl | h
        · exact List.not_mem_nil
        · exact ih h
      · rename_i hc
        rcases List.mem_cons.mp h with rfl | h
        · rw [List.mem_cons, not_or]
          exact ⟨Ne.symm hc, ih List.mem_cons_self⟩
        · exact ih (List.mem_cons_of_mem _ h)

theorem parted_split (mark : Char) (cs : List Char) : Parted mark cs (split mark cs) where
  nonempty := split_ne_nil mark cs
  unmarked _ := not_mem_of_mem_split
  joined := join_split mark cs

end Text

namespace Segment

/-- The name of an arm, or one or more digits with at most one plus sign in front, whose value is
a machine word. -/
inductive Spells : List Char → Segment → Prop
  | thenArm : Spells "then".toList .thenArm
  | elseArm : Spells "else".toList .elseArm
  | index {part digits : List Char} (hSign : part = digits ∨ part = '+' :: digits)
      (hSome : digits ≠ []) (hDigits : ∀ c ∈ digits, c.isDigit = true)
      (hWord : Text.natOfDigits digits < Json.wordBound) :
      Spells part (.index (Text.natOfDigits digits))

def IsText (part : List Char) : Prop := ∃ s, Spells part s

theorem parse?_eq_boundedNat? {cs : List Char} (h : ∀ c ∈ cs, c = '+' ∨ c.isDigit = true) :
    parse? cs = (Text.boundedNat? Json.wordBound cs).map .index := by
  -- Both names have a letter in common.
  have hName : ∀ name : List Char, 'e' ∈ name → cs ≠ name := by
    rintro name hMem rfl
    exact absurd (h 'e' hMem) (by decide)
  rw [parse?, if_neg (hName _ (by decide)), if_neg (hName _ (by decide))]
  rfl

theorem parse?_of_digits {cs digits : List Char} (hSign : cs = digits ∨ cs = '+' :: digits)
    (hSome : digits ≠ []) (hDigits : ∀ c ∈ digits, c.isDigit = true)
    (hWord : Text.natOfDigits digits < Json.wordBound) :
    parse? cs = some (.index (Text.natOfDigits digits)) := by
  have hChars : ∀ c ∈ cs, c = '+' ∨ c.isDigit = true := by
    intro c hc
    rcases hSign with rfl | rfl
    · exact .inr (hDigits c hc)
    · rcases List.mem_cons.mp hc with rfl | hc
      · exact .inl rfl
      · exact .inr (hDigits c hc)
  rw [parse?_eq_boundedNat? hChars,
    Text.boundedNat?_eq_some_iff.mpr ⟨digits, hSign, hSome, hDigits, rfl, hWord⟩, Option.map_some]

theorem parse?_eq_some_iff {part : List Char} {s : Segment} :
    parse? part = some s ↔ Spells part s := by
  constructor
  · intro h
    rw [parse?] at h
    split at h
    · rename_i hThen
      cases h
      exact hThen ▸ .thenArm
    split at h
    · rename_i hElse
      cases h
      exact hElse ▸ .elseArm
    · obtain ⟨i, hIndex, rfl⟩ := Option.map_eq_some_iff.mp h
      obtain ⟨digits, hSign, hSome, hDigits, rfl, hWord⟩ := Text.boundedNat?_eq_some_iff.mp hIndex
      exact .index hSign hSome hDigits hWord
  · intro h
    cases h with
    | thenArm => rfl
    | elseArm => rfl
    | index hSign hSome hDigits hWord => exact parse?_of_digits hSign hSome hDigits hWord

theorem parse?_eq_none_iff {part : List Char} : parse? part = none ↔ ¬ IsText part := by
  rw [← Option.not_isSome_iff_eq_none, Option.isSome_iff_exists, IsText]
  simp only [parse?_eq_some_iff]

end Segment

namespace Path

open Segment (Spells IsText)

theorem ofParts_eq_ok_iff {parts : List (List Char)} {p : Path} :
    ofParts parts = .ok p ↔ List.Forall₂ Spells parts p := by
  induction parts generalizing p with
  | nil =>
    rw [ofParts, List.forall₂_nil_left_iff, Except.ok.injEq, eq_comm]
  | cons part parts ih =>
    rw [ofParts, List.forall₂_cons_left_iff]
    constructor
    · intro h
      split at h
      · cases h
      · rename_i s hPart
        cases hRest : ofParts parts with
        | error bad => rw [hRest] at h; cases h
        | ok rest =>
          rw [hRest] at h
          cases h
          exact ⟨s, rest, Segment.parse?_eq_some_iff.mp hPart, ih.mp hRest, rfl⟩
    · rintro ⟨s, rest, hPart, hRest, rfl⟩
      rw [Segment.parse?_eq_some_iff.mpr hPart, ih.mpr hRest]
      rfl

theorem exists_ofParts_iff {parts : List (List Char)} :
    (∃ p, ofParts parts = .ok p) ↔ ∀ part ∈ parts, IsText part := by
  simp only [ofParts_eq_ok_iff]
  induction parts with
  | nil => simp
  | cons part parts ih =>
    rw [List.forall_mem_cons, ← ih]
    constructor
    · rintro ⟨p, hp⟩
      obtain ⟨s, rest, hPart, hRest, rfl⟩ := List.forall₂_cons_left_iff.mp hp
      exact ⟨⟨s, hPart⟩, rest, hRest⟩
    · rintro ⟨⟨s, hPart⟩, rest, hRest⟩
      exact ⟨s :: rest, .cons hPart hRest⟩

theorem ofParts_eq_error_iff {parts : List (List Char)} {bad : String} :
    ofParts parts = .error bad ↔ ∃ front back, parts = front ++ bad.toList :: back ∧
      (∀ part ∈ front, IsText part) ∧ ¬ IsText bad.toList := by
  constructor
  · intro h
    induction parts with
    | nil => cases h
    | cons part parts ih =>
      rw [ofParts] at h
      split at h
      · rename_i hPart
        cases h
        rw [String.toList_ofList]
        exact ⟨[], parts, rfl, List.forall_mem_nil _, Segment.parse?_eq_none_iff.mp hPart⟩
      · rename_i s hPart
        cases hRest : ofParts parts with
        | ok rest => rw [hRest] at h; cases h
        | error bad' =>
          rw [hRest] at h
          cases h
          obtain ⟨front, back, rfl, hFront, hBad⟩ := ih hRest
          have hText : IsText part := ⟨s, Segment.parse?_eq_some_iff.mp hPart⟩
          exact ⟨part :: front, back, rfl, List.forall_mem_cons.mpr ⟨hText, hFront⟩, hBad⟩
  · rintro ⟨front, back, rfl, hFront, hBad⟩
    induction front with
    | nil =>
      rw [List.nil_append, ofParts, Segment.parse?_eq_none_iff.mpr hBad, String.ofList_toList]
    | cons part front ih =>
      obtain ⟨⟨s, hPart⟩, hFront⟩ := List.forall_mem_cons.mp hFront
      rw [List.cons_append, ofParts, Segment.parse?_eq_some_iff.mpr hPart, ih hFront]
      rfl

theorem parse_empty : parse "" = .ok [] := rfl

theorem parse_of_ne {s : String} (h : s ≠ "") : parse s = ofParts (Text.split '.' s.toList) := by
  rw [parse, if_neg]
  rwa [String.isEmpty_iff]

theorem parse_eq_ok_iff {s : String} {p : Path} : parse s = .ok p ↔
    s = "" ∧ p = [] ∨ s ≠ "" ∧ List.Forall₂ Spells (Text.split '.' s.toList) p := by
  by_cases hs : s = ""
  · subst hs
    simp [parse_empty, eq_comm]
  · rw [parse_of_ne hs, ofParts_eq_ok_iff]
    simp [hs]

theorem exists_parse_eq_ok_iff {s : String} :
    (∃ p, parse s = .ok p) ↔ s = "" ∨ ∀ part ∈ Text.split '.' s.toList, IsText part := by
  by_cases hs : s = ""
  · subst hs
    exact iff_of_true ⟨[], parse_empty⟩ (.inl rfl)
  · rw [parse_of_ne hs, exists_ofParts_iff, or_iff_right hs]

theorem parse_eq_error_iff {s bad : String} : parse s = .error bad ↔ s ≠ "" ∧
    ∃ front back, Text.split '.' s.toList = front ++ bad.toList :: back ∧
      (∀ part ∈ front, IsText part) ∧ ¬ IsText bad.toList := by
  by_cases hs : s = ""
  · subst hs
    simp [parse_empty]
  · rw [parse_of_ne hs, ofParts_eq_error_iff, and_iff_right hs]

/-- A path is read back from its text. Any text is read as what its parts spell, provided that it is
empty or that they are all texts of segments; else it is refused for the first part that is none. -/
theorem texts_read_as_spelled :
    (∀ p : Path, p.Fits → parse p.render = .ok p) ∧
    ∀ s : String, ∃ parts, Text.Parted '.' s.toList parts ∧
      (∀ p, parse s = .ok p ↔ s = "" ∧ p = [] ∨ s ≠ "" ∧ List.Forall₂ Spells parts p) ∧
      ((∃ p, parse s = .ok p) ↔ s = "" ∨ ∀ part ∈ parts, IsText part) ∧
      (∀ bad, parse s = .error bad ↔ s ≠ "" ∧ ∃ front back, parts = front ++ bad.toList :: back ∧
        (∀ part ∈ front, IsText part) ∧ ¬ IsText bad.toList) ∧
      ∀ p, parse s = .ok p → parse p.render = .ok p := by
  constructor
  · intro p hp
    exact parse_render hp
  · intro s
    refine ⟨Text.split '.' s.toList, Text.parted_split '.' s.toList, fun p => parse_eq_ok_iff,
      exists_parse_eq_ok_iff, fun bad => parse_eq_error_iff, ?_⟩
    intro p hp
    exact parse_render (fits_of_parse hp)

/-- The largest index is read back, and so is what a text with a sign and zeros is read as. -/
theorem extreme_indices_read_back :
    let largest : Path := [.index 18446744073709551615, .thenArm]
    let signed : Path := [.index 7, .elseArm]
    (largest.Fits ∧ parse "+007.else" = .ok signed) ∧
    parse largest.render = .ok largest ∧ parse signed.render = .ok signed := by
  intro largest signed
  have hLargest : largest.Fits := by decide
  have hSigned : parse "+007.else" = .ok signed := rfl
  obtain ⟨-, -, -, -, -, hAgain⟩ := texts_read_as_spelled.2 "+007.else"
  exact ⟨⟨hLargest, hSigned⟩, texts_read_as_spelled.1 largest hLargest, hAgain signed hSigned⟩

end Path

end Reanalysis
