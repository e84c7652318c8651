import Reanalysis.Text.Blank
import Reanalysis.Text.Digit

/-!
# Branch counts in the output of a fuzzer

The fuzzer writes lines with `branch:` and a number in them. The first such place of each line
counts, and the largest number wins; a number beyond 64 bits or in other than ASCII digits does not
count, and its line does not either.
-/

namespace Reanalysis.BranchReport

def label : List Char := "branch:".toList

/-- The digits of a report at the very start of a text. -/
def digitsHere? (cs : List Char) : Option (List Char) :=
  if label.isPrefixOf cs then
    let digits := (Text.trimStart (cs.drop label.length)).takeWhile Text.isDecimal
    if digits.isEmpty then none else some digits
  else none

/-- The digits of the first report in a line. -/
def firstDigits? : List Char → Option (List Char)
  | [] => none
  | c :: rest => (digitsHere? (c :: rest)).orElse fun _ => firstDigits? rest

def lineCount? (line : String) : Option Nat :=
  (firstDigits? line.toList).bind (Text.boundedNat? 0x10000000000000000)

def largest? (output : String) : Option Nat :=
  ((Text.lines output).filterMap lineCount?).max?

end Reanalysis.BranchReport
