/-!
# Alignment of two lists

An edit script keeps pairs of matching elements and deletes or inserts the others. `align` keeps as
many pairs as possible; where deleting and inserting do equally well it deletes first. The scripts
for all pairs of suffixes are computed row by row from the end.
-/

namespace Reanalysis

inductive Edit (β μ : Type) where
  | keep (b : β) (m : μ)
  | delete (b : β)
  | insert (m : μ)
deriving Repr

namespace Edit

def base? {β μ : Type} : Edit β μ → Option β
  | .keep b _ | .delete b => some b
  | .insert _ => none

def modified? {β μ : Type} : Edit β μ → Option μ
  | .keep _ m | .insert m => some m
  | .delete _ => none

def isKeep {β μ : Type} : Edit β μ → Bool
  | .keep _ _ => true
  | _ => false

end Edit

namespace Alignment

/-- An edit script and the number of pairs it keeps. -/
structure Script (β μ : Type) where
  kept : Nat
  edits : List (Edit β μ)

variable {β μ : Type}

def Script.empty : Script β μ := ⟨0, []⟩

/-- The scripts for an empty base and each suffix of the modified list. -/
def lastRow : List μ → List (Script β μ)
  | [] => [.empty]
  | m :: ms =>
    let rest := lastRow ms
    ⟨0, .insert m :: (rest.headD .empty).edits⟩ :: rest

/-- The scripts for a base that starts with `b` and each suffix of the modified list. `below` holds
those for the base without `b`. -/
def row (same : β → μ → Bool) (b : β) : List μ → List (Script β μ) → List (Script β μ)
  | [], below =>
    let down := below.headD .empty
    [⟨down.kept, .delete b :: down.edits⟩]
  | m :: ms, below =>
    let right := row same b ms below.tail
    let down := below.headD .empty
    let next := right.headD .empty
    let here :=
      if same b m then
        let both := below.tail.headD .empty
        ⟨both.kept + 1, .keep b m :: both.edits⟩
      else if next.kept ≤ down.kept then ⟨down.kept, .delete b :: down.edits⟩
      else ⟨next.kept, .insert m :: next.edits⟩
    here :: right

/-- The scripts for the whole base and each suffix of the modified list. -/
def firstRow (same : β → μ → Bool) (ms : List μ) : List β → List (Script β μ)
  | [] => lastRow ms
  | b :: bs => row same b ms (firstRow same ms bs)

end Alignment

def align {β μ : Type} (same : β → μ → Bool) (bs : List β) (ms : List μ) : List (Edit β μ) :=
  ((Alignment.firstRow same ms bs).headD .empty).edits

end Reanalysis
