/-!
# Blank characters and lines

The white space of Unicode, trimming, and the cut of a text into lines. A line ends at a line
feed, and one carriage return right before the line feed belongs to the ending.
-/

namespace Reanalysis.Text

/-- The white space property of Unicode. -/
def isBlank (c : Char) : Bool :=
  let n := c.toNat
  (9 ≤ n && n ≤ 13) || n == 32 || n == 0x85 || n == 0xa0 || n == 0x1680 ||
    (0x2000 ≤ n && n ≤ 0x200a) || n == 0x2028 || n == 0x2029 || n == 0x202f || n == 0x205f ||
    n == 0x3000

def trimStart (cs : List Char) : List Char := cs.dropWhile isBlank

def trimEnd (cs : List Char) : List Char := (cs.reverse.dropWhile isBlank).reverse

def trimChars (cs : List Char) : List Char := trimEnd (trimStart cs)

def trim (s : String) : String := String.ofList (trimChars s.toList)

def isBlankText (s : String) : Bool := s.toList.all isBlank

/-- One line without its ending: a carriage return right before the line feed is dropped. -/
def dropReturn (line : List Char) : List Char :=
  match line.reverse with
  | '\r' :: rest => rest.reverse
  | _ => line

/-- `current` is the open line, reversed. -/
def linesFrom : List Char → List Char → List (List Char)
  | current, [] => if current.isEmpty then [] else [current.reverse]
  | current, '\n' :: rest => dropReturn current.reverse :: linesFrom [] rest
  | current, c :: rest => linesFrom (c :: current) rest

def lines (s : String) : List String := (linesFrom [] s.toList).map String.ofList

end Reanalysis.Text
