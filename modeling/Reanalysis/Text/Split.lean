/-!
# Splitting at a character
-/

namespace Reanalysis.Text

/-- The parts between the occurrences of `mark`; there is always one. -/
def split (mark : Char) : List Char → List (List Char)
  | [] => [[]]
  | c :: rest =>
    match split mark rest with
    | [] => [[c]]
    | part :: parts => if c = mark then [] :: part :: parts else (c :: part) :: parts

def join (mark : Char) : List (List Char) → List Char
  | [] => []
  | [part] => part
  | part :: next :: parts => part ++ mark :: join mark (next :: parts)

theorem split_ne_nil (mark : Char) (cs : List Char) : split mark cs ≠ [] := by
  cases cs with
  | nil => simp [split]
  | cons c rest => rw [split]; split <;> (try split) <;> simp

theorem join_cons (mark : Char) (part : List Char) {parts : List (List Char)} (h : parts ≠ []) :
    join mark (part :: parts) = part ++ mark :: join mark parts := by
  cases parts with
  | nil => exact absurd rfl h
  | cons next rest => rfl

theorem join_split (mark : Char) (cs : List Char) : join mark (split mark cs) = cs := by
  induction cs with
  | nil => rfl
  | cons c rest ih =>
    rw [split]
    split
    · rename_i h
      exact absurd h (split_ne_nil mark rest)
    · rename_i part parts h
      rw [h] at ih
      split
      · rename_i hc
        rw [join_cons mark [] (by simp), ih, hc]
        rfl
      · cases parts with
        | nil => simpa [join] using ih
        | cons next tail =>
          rw [join_cons mark _ (by simp)] at ih ⊢
          simp [← ih]

end Reanalysis.Text
