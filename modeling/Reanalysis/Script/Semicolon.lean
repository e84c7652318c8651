import Reanalysis.Script.Lexeme

/-!
# Automatic semicolons

A statement may end without a semicolon at the end of the text, before a closing brace, or at the
end of a line unless the next line goes on with it. The rule is asked right behind a token and once
more behind each comment. A null character counts as the end of the text.
-/

namespace Reanalysis.Script

/-- What a stretch of blanks and comments leads to. -/
inductive Passage where
  /-- A slash that starts no comment, and the rest behind it. -/
  | blocked (rest : List Char)
  /-- A block comment on one line, and the rest behind it. -/
  | inline (rest : List Char)
  | through (rest : List Char)

/-- The rest behind a block comment, and whether it holds the end of a line. -/
def passBlock (broken : Bool) : List Char → Option (List Char) × Bool
  | '*' :: '/' :: rest => (some rest, broken)
  | c :: rest => if c = '\x00' then (none, broken) else passBlock (broken || isLineEnd c) rest
  | [] => (none, broken)

/-- Passes over blanks and comments, and tells whether there was a comment. Unless told to go on, it
stops behind the first block comment that no slash follows. `fuel` bounds the number of comments. -/
def passage (goOn : Bool) : Nat → Bool → Bool → List Char → Passage × Bool
  | 0, _, commented, cs => (.blocked cs, commented)
  | fuel + 1, broken, commented, cs =>
    match cs.dropWhile isPlainBlank with
    | '/' :: '/' :: rest =>
      passage goOn fuel broken true (rest.dropWhile fun c => !(c = '\x00' || isLineEnd c))
    | '/' :: '*' :: rest =>
      match passBlock broken rest with
      | (none, _) => (.through [], commented)
      | (some after, broken) =>
        if !goOn && after.head? ≠ some '/' then
          (if broken then .through after else .inline after, true)
        else passage goOn fuel broken true after
    | '/' :: rest => (.blocked rest, commented)
    | other => (.through other, commented)

def isAsciiLetter (c : Char) : Bool := c.isAlpha

/-- Where a line goes on with the line before it, if it does. -/
def continuation? : List Char → Option (List Char)
  | '.' :: rest => if rest.head?.any Char.isDigit then none else some rest
  | '+' :: rest => if rest.head? = some '+' then none else some rest
  | '-' :: rest => if rest.head? = some '-' then none else some rest
  | '!' :: rest => if rest.head? = some '=' then some rest else none
  | 'i' :: 'n' :: rest =>
    if !rest.head?.any isAsciiLetter then some rest
    else if startsWith "stanceof" rest && !(rest.drop 8).head?.any isAsciiLetter then
      some (rest.drop 8)
    else none
  | c :: rest => if "`,:;*%><=[(?^|&/".toList.contains c then some (c :: rest) else none
  | [] => none

/-- A semicolon that may not be left out: where that became clear, and whether a comment came
before. -/
structure Refusal where
  rest : List Char
  commented : Bool

def refusedAtLine? (fuel : Nat) (commented : Bool) (cs : List Char) : Option Refusal :=
  match passage true fuel false commented cs with
  | (.through rest, commented) => (continuation? rest).map (⟨·, commented⟩)
  | (.inline rest, commented) | (.blocked rest, commented) => some ⟨rest, commented⟩

/-- The rule at a character that is not the start of a comment; `next` goes on behind a blank. -/
def refusedAt? (fuel : Nat) (next : List Char → Option Refusal) (commented : Bool) :
    List Char → Option Refusal
  | [] => some ⟨[], commented⟩
  | c :: rest =>
    if c = '\x7d' then none
    else if isLineEnd c then refusedAtLine? fuel commented rest
    else if isPlainBlank c then next rest
    else some ⟨c :: rest, commented⟩

/-- Why a semicolon may not be left out here, if it may not. `operators` says that an operator could
follow; where none can, a comment with the end of a line in it ends the statement at once. `fuel`
bounds the number of characters that are looked at. -/
def semicolonRefused? (operators : Bool) : Nat → Bool → List Char → Option Refusal
  | 0, commented, cs => some ⟨cs, commented⟩
  | _ + 1, _, [] => none
  | fuel + 1, commented, '/' :: rest =>
    match passage false (fuel + 1) false commented ('/' :: rest) with
    | (.blocked after, commented) => some ⟨after, commented⟩
    | (.inline after, commented) =>
      refusedAt? fuel (semicolonRefused? operators fuel commented) commented after
    | (.through after, commented) =>
      if !operators && after.head? ≠ some ',' && after.head? ≠ some '=' then none
      else refusedAt? fuel (semicolonRefused? operators fuel commented) commented after
  | fuel + 1, commented, c :: rest =>
    if c = '\x00' then none
    else refusedAt? fuel (semicolonRefused? operators fuel commented) commented (c :: rest)

end Reanalysis.Script
