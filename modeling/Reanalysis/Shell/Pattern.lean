/-!
# Patterns

Patterns on names: a star stands for any characters, a question mark for one, brackets for one of
a set. A quoted character only stands for itself.

Part of the system that the harness runs on, and of no result: see `Reanalysis.Shell.Launch`.
-/

namespace Reanalysis.Shell

/-- A character, and whether it is quoted. -/
abbrev Marked := Char × Bool

inductive Token where
  | any
  | one
  | oneOf (negated : Bool) (ranges : List (Char × Char))
  | exactly (c : Char)
deriving DecidableEq, Repr

namespace Token

def accepts (t : Token) (c : Char) : Bool :=
  match t with
  | .any | .one => true
  | .oneOf negated ranges => ranges.any (fun (lo, hi) => lo ≤ c && c ≤ hi) != negated
  | .exactly d => c = d

/-- The ranges of a set up to its closing bracket, which may stand first as a member. -/
def ranges : List Marked → List (Char × Char) → Option (List (Char × Char) × List Marked)
  | [], _ => none
  | (lo, _) :: ('-', false) :: (hi, q) :: rest, done =>
    if hi = ']' && !q then some (done ++ [(lo, lo), ('-', '-')], rest)
    else ranges rest (done ++ [(lo, hi)])
  | (c, q) :: rest, done =>
    if c = ']' && !q && !done.isEmpty then some (done, rest)
    else ranges rest (done ++ [(c, c)])

theorem length_ranges_le {cs rest : List Marked} {done found : List (Char × Char)}
    (h : ranges cs done = some (found, rest)) : rest.length ≤ cs.length := by
  fun_induction ranges cs done with
  | case1 => simp at h
  | case2 lo hi q rest' done hq _ => simp_all; omega
  | case3 lo _ hi q rest' done hq ih => have := ih h; simp_all; omega
  | case4 => simp_all
  | case5 c q rest' done _ hq ih => have := ih h; simp_all; omega

/-- Reads a pattern. A bracket that is not closed stands for itself. -/
def ofChars : List Marked → List Token
  | [] => []
  | (c, true) :: rest => .exactly c :: ofChars rest
  | ('*', false) :: rest => .any :: ofChars rest
  | ('?', false) :: rest => .one :: ofChars rest
  | ('[', false) :: rest =>
    let negated := match rest with
      | (c, false) :: _ => c = '!' || c = '^'
      | _ => false
    match _h : ranges (if negated then rest.drop 1 else rest) [] with
    | some (found, after) => .oneOf negated found :: ofChars after
    | none => .exactly '[' :: ofChars rest
  | (c, false) :: rest => .exactly c :: ofChars rest
termination_by cs => cs.length
decreasing_by
  all_goals simp_all
  have hLength := length_ranges_le _h
  split at hLength
  · rw [List.length_tail] at hLength
    omega
  · omega

def matchesAll : List Token → List Char → Bool
  | [], cs => cs.isEmpty
  | .any :: rest, [] => matchesAll rest []
  | .any :: rest, c :: cs => matchesAll rest (c :: cs) || matchesAll (.any :: rest) cs
  | _ :: _, [] => false
  | t :: rest, c :: cs => t.accepts c && matchesAll rest cs
termination_by tokens cs => tokens.length + cs.length

/-- Whether anything in it is more than a character that stands for itself. -/
def isPattern (cs : List Marked) : Bool :=
  (ofChars cs).any fun t => match t with
    | .exactly _ => false
    | _ => true

/-- Takes a match off the start or the end, the shortest or the longest there is. -/
def trim (fromEnd longest : Bool) (pattern : List Token) (cs : List Char) : List Char :=
  let cuts := List.range (cs.length + 1)
  let cuts := if longest == fromEnd then cuts else cuts.reverse
  if fromEnd then
    match cuts.find? fun n => matchesAll pattern (cs.drop n) with
    | some n => cs.take n
    | none => cs
  else
    match cuts.find? fun n => matchesAll pattern (cs.take n) with
    | some n => cs.drop n
    | none => cs

end Token

end Reanalysis.Shell
