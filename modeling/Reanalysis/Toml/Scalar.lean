import Reanalysis.Text.Digit
import Reanalysis.Text.Scanner
import Reanalysis.Toml.Value

/-!
# TOML numbers, dates and times

Whole numbers have 64 bits. A number with a point or an exponent is rounded once, to the nearest
floating-point number, and must not become infinite upwards.
-/

namespace Reanalysis.Toml

open Text (Scanner)
open Text.Scanner

/-! ## Numbers -/

def sign : Scanner Bool := do
  match ← next? with
  | some '-' => char '-'; return true
  | some '+' => char '+'; return false
  | _ => return false

/-- Digits with single underscores between them. -/
def digitRun (p : Char → Bool) : Scanner (List Char) := do
  let first ← charIf p
  let rest ← many (charIf p <|> (do char '_'; charIf p))
  return first :: rest

def wholeDigits : Scanner (List Char) := do
  if (← next?) = some '0' then
    char '0'
    return ['0']
  else digitRun Char.isDigit

def natOfBase (base : Nat) (cs : List Char) : Nat :=
  cs.foldl (fun n c => base * n + (if c.isDigit then c.toNat - 48 else c.toLower.toNat - 87)) 0

def smallestInt : Int := -0x8000000000000000
def largestInt : Int := 0x8000000000000000 - 1

def intInRange (i : Int) : Scanner Int :=
  if smallestInt ≤ i && i ≤ largestInt then pure i else failure

def prefixedInt (mark : String) (base : Nat) (p : Char → Bool) : Scanner Int := do
  literal mark
  intInRange (natOfBase base (← digitRun p))

def integer : Scanner Int :=
  prefixedInt "0x" 16 (fun c => c.isDigit || ('a' ≤ c.toLower && c.toLower ≤ 'f')) <|>
  prefixedInt "0o" 8 (fun c => '0' ≤ c && c ≤ '7') <|>
  prefixedInt "0b" 2 (fun c => c = '0' || c = '1') <|>
  (do
    let minus ← sign
    let n : Int := natOfBase 10 (← wholeDigits)
    intInRange (if minus then -n else n))

/-- The floating-point number nearest to `n * 10 ^ e`. -/
def nearestFloat (n : Nat) (e : Int) : Float :=
  let size := (Nat.toDigits 10 n).length + e
  if n = 0 || size < -400 then 0.0
  else if 400 < size then 1.0 / 0.0
  else if 0 ≤ e then Float.ofScientific n false e.toNat
  else Float.ofScientific n true (-e).toNat

def exponent : Scanner Int := do
  let _ ← charIf fun c => c = 'e' || c = 'E'
  let minus ← sign
  let n : Int := natOfBase 10 (← digitRun Char.isDigit)
  return if minus then -n else n

def fractionDigits : Scanner (List Char) := do
  char '.'
  digitRun Char.isDigit

def special : Scanner Float :=
  (do literal "inf"; return 1.0 / 0.0) <|> (do literal "nan"; return 0.0 / 0.0)

def float : Scanner Float :=
  (do
    let minus ← sign
    let whole ← wholeDigits
    let (part, e) ← (do return ([], ← exponent)) <|>
      (do return (← fractionDigits, (← optional exponent).getD 0))
    let x := nearestFloat (natOfBase 10 (whole ++ part)) (e - part.length)
    if x.isInf && !minus then failure
    return if minus then -x else x) <|>
  (do
    let minus ← sign
    let x ← special
    return if minus then -x else x)

/-! ## Dates and times -/

def numberWithin (width least most : Nat) : Scanner Nat := do
  let n := natOfBase 10 (← digits width)
  if least ≤ n && n ≤ most then return n else failure

def daysIn (year month : Nat) : Nat :=
  if month = 2 then
    if year % 4 = 0 && (year % 100 ≠ 0 || year % 400 = 0) then 29 else 28
  else if month = 4 || month = 6 || month = 9 || month = 11 then 30
  else 31

def date : Scanner Unit := do
  let year ← numberWithin 4 0 9999
  char '-'
  let month ← numberWithin 2 1 12
  char '-'
  let _ ← numberWithin 2 1 (daysIn year month)

def time : Scanner Unit := do
  let _ ← numberWithin 2 0 23
  char ':'
  let _ ← numberWithin 2 0 59
  char ':'
  let _ ← numberWithin 2 0 60
  let _ ← optional (do char '.'; takeWhile1 Char.isDigit)

def zone : Scanner Unit := do
  let c ← anyChar
  if c = 'Z' || c = 'z' then return
  else if c = '+' || c = '-' then
    let _ ← numberWithin 2 0 23
    char ':'
    let _ ← numberWithin 2 0 59
  else failure

def moment : Scanner Unit :=
  (do
    date
    let _ ← optional do
      let _ ← charIf fun c => c = 'T' || c = 't' || c = ' '
      time
      optional zone) <|> time

/-! ## All of them -/

def scalar : Scanner Value :=
  (do moment; return .moment) <|> (do return .float (← float)) <|>
  (do return .int (← integer)) <|> (do literal "true"; return .bool true) <|>
  (do literal "false"; return .bool false)

end Reanalysis.Toml
