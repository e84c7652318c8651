import Mathlib.Data.List.Forall2
import Mathlib.Data.List.Infix
import Reanalysis.Diff.Alignment

/-!
# Edit scripts of an alignment

`Aligns` says what an edit script does to two lists, element by element. `Fills` is what a property
of scripts needs to hold all over the rows; later modules read a comparison off such properties
alone and not off the rows.
-/

namespace Reanalysis.Alignment

variable {β μ : Type}

/-- A script that turns one list into the other. It keeps only matching elements, and where the two
lists start with matching elements it keeps these. -/
inductive Aligns (same : β → μ → Bool) : List β → List μ → List (Edit β μ) → Prop
  | nil : Aligns same [] [] []
  | keep {b : β} {m : μ} {bs : List β} {ms : List μ} {es : List (Edit β μ)} :
      same b m = true → Aligns same bs ms es → Aligns same (b :: bs) (m :: ms) (.keep b m :: es)
  | delete {b : β} {bs : List β} {ms : List μ} {es : List (Edit β μ)} :
      (∀ m ∈ ms.head?, same b m = false) → Aligns same bs ms es →
      Aligns same (b :: bs) ms (.delete b :: es)
  | insert {m : μ} {bs : List β} {ms : List μ} {es : List (Edit β μ)} :
      (∀ b ∈ bs.head?, same b m = false) → Aligns same bs ms es →
      Aligns same bs (m :: ms) (.insert m :: es)

/-- Every script of a row has the property for its suffix of the modified list. -/
def Row (P : List μ → Script β μ → Prop) (ms : List μ) (row : List (Script β μ)) : Prop :=
  List.Forall₂ P ms.tails row

theorem Row.cons_iff {P : List μ → Script β μ → Prop} {m : μ} {ms : List μ}
    {row : List (Script β μ)} :
    Row P (m :: ms) row ↔ ∃ here rest, row = here :: rest ∧ P (m :: ms) here ∧ Row P ms rest := by
  rw [Row, List.tails_cons, List.forall₂_cons_left_iff]
  constructor
  · rintro ⟨here, rest, hHere, hRest, rfl⟩
    exact ⟨here, rest, rfl, hHere, hRest⟩
  · rintro ⟨here, rest, rfl, hHere, hRest⟩
    exact ⟨here, rest, hHere, hRest, rfl⟩

theorem Row.head {P : List μ → Script β μ → Prop} {ms : List μ} {row : List (Script β μ)}
    (h : Row P ms row) : P ms (row.headD .empty) := by
  cases ms with
  | nil =>
    cases h with
    | cons hHere _ => exact hHere
  | cons m ms =>
    obtain ⟨here, rest, rfl, hHere, _⟩ := Row.cons_iff.mp h
    exact hHere

/-- A property that goes over from the scripts of shorter lists to each script made from them. -/
structure Fills (same : β → μ → Bool) (P : List β → List μ → Script β μ → Prop) : Prop where
  empty : P [] [] .empty
  onlyInsert {m : μ} {ms : List μ} {next : Script β μ} :
    P [] ms next → P [] (m :: ms) ⟨0, .insert m :: next.edits⟩
  onlyDelete {b : β} {bs : List β} {down : Script β μ} :
    P bs [] down → P (b :: bs) [] ⟨down.kept, .delete b :: down.edits⟩
  keep {b : β} {m : μ} {bs : List β} {ms : List μ} {both : Script β μ} :
    same b m = true → P bs ms both →
    P (b :: bs) (m :: ms) ⟨both.kept + 1, .keep b m :: both.edits⟩
  delete {b : β} {m : μ} {bs : List β} {ms : List μ} {down next : Script β μ} :
    same b m = false → P bs (m :: ms) down → P (b :: bs) ms next → next.kept ≤ down.kept →
    P (b :: bs) (m :: ms) ⟨down.kept, .delete b :: down.edits⟩
  insert {b : β} {m : μ} {bs : List β} {ms : List μ} {down next : Script β μ} :
    same b m = false → P bs (m :: ms) down → P (b :: bs) ms next → down.kept < next.kept →
    P (b :: bs) (m :: ms) ⟨next.kept, .insert m :: next.edits⟩

section Filling

variable {same : β → μ → Bool} {P : List β → List μ → Script β μ → Prop}

theorem Fills.lastRow (h : Fills same P) (ms : List μ) : Row (P []) ms (lastRow ms) := by
  induction ms with
  | nil => exact .cons h.empty .nil
  | cons m ms ih => exact Row.cons_iff.mpr ⟨_, _, rfl, h.onlyInsert ih.head, ih⟩

theorem Fills.row (h : Fills same P) (b : β) {bs : List β} {ms : List μ}
    {below : List (Script β μ)} (hBelow : Row (P bs) ms below) :
    Row (P (b :: bs)) ms (row same b ms below) := by
  induction ms generalizing below with
  | nil => exact .cons (h.onlyDelete hBelow.head) .nil
  | cons m ms ih =>
    have hDown := hBelow.head
    obtain ⟨here, rest, rfl, _, hRest⟩ := Row.cons_iff.mp hBelow
    have hRight := ih hRest
    refine Row.cons_iff.mpr ⟨_, _, rfl, ?_, hRight⟩
    split
    · rename_i hSame
      exact h.keep hSame hRest.head
    · rename_i hSame
      have hApart : same b m = false := by simpa using hSame
      split
      · rename_i hMore
        exact h.delete hApart hDown hRight.head hMore
      · rename_i hLess
        exact h.insert hApart hDown hRight.head (Nat.lt_of_not_le hLess)

theorem Fills.firstRow (h : Fills same P) (bs : List β) (ms : List μ) :
    Row (P bs) ms (firstRow same ms bs) := by
  induction bs with
  | nil => exact h.lastRow ms
  | cons b bs ih => exact h.row b ih

end Filling

theorem fills_aligns (same : β → μ → Bool) :
    Fills same fun bs ms script => Aligns same bs ms script.edits where
  empty := .nil
  onlyInsert hNext := .insert (by simp) hNext
  onlyDelete hDown := .delete (by simp) hDown
  keep hSame hBoth := .keep hSame hBoth
  delete hApart hDown _ _ := .delete (by simpa using hApart) hDown
  insert hApart _ hNext _ := .insert (by simpa using hApart) hNext

theorem aligns_align (same : β → μ → Bool) (bs : List β) (ms : List μ) :
    Aligns same bs ms (align same bs ms) :=
  ((fills_aligns same).firstRow bs ms).head

end Reanalysis.Alignment
