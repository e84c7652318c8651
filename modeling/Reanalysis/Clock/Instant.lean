import Reanalysis.Json.Record
import Reanalysis.Text.Blank
import Reanalysis.Text.Scanner

/-!
# Instants

A point in time with nanoseconds, read from a date, a time and an offset and written in universal
time. Blanks may stand around the parts of a date or a time. A sixtieth second is a leap second: it
is kept as the second before it with a thousand million nanoseconds more.
-/

namespace Reanalysis

/-- `seconds` counts from the start of 1970 in universal time. -/
structure Instant where
  seconds : Int
  nanos : Nat
deriving DecidableEq, Repr

namespace Instant

/-! ## The calendar -/

/-- Days from the start of 1970 to a day of the calendar. -/
def daysOfDate (year : Int) (month day : Nat) : Int :=
  let y := if month ≤ 2 then year - 1 else year
  let era := y.fdiv 400
  let ofEra := y - era * 400
  let shifted : Int := if 2 < month then (month : Int) - 3 else month + 9
  let ofYear := (153 * shifted + 2).fdiv 5 + day - 1
  let inEra := ofEra * 365 + ofEra.fdiv 4 - ofEra.fdiv 100 + ofYear
  era * 146097 + inEra - 719468

def dateOfDays (days : Int) : Int × Nat × Nat :=
  let z := days + 719468
  let era := z.fdiv 146097
  let inEra := z - era * 146097
  let ofEra := (inEra - inEra.fdiv 1460 + inEra.fdiv 36524 - inEra.fdiv 146096).fdiv 365
  let ofYear := inEra - (365 * ofEra + ofEra.fdiv 4 - ofEra.fdiv 100)
  let shifted := (5 * ofYear + 2).fdiv 153
  let day := ofYear - (153 * shifted + 2).fdiv 5 + 1
  let month := if shifted < 10 then shifted + 3 else shifted - 9
  let year := ofEra + era * 400 + (if month ≤ 2 then 1 else 0)
  (year, month.toNat, day.toNat)

def isLeapYear (year : Int) : Bool :=
  year.emod 4 = 0 && (year.emod 100 ≠ 0 || year.emod 400 = 0)

def monthLength (year : Int) (month : Nat) : Nat :=
  if month = 2 then (if isLeapYear year then 29 else 28)
  else if [4, 6, 9, 11].contains month then 30
  else 31

def yearInRange (year : Int) : Bool := -262143 ≤ year && year ≤ 262142

/-! ## Reading -/

open Text (Scanner)
open Text.Scanner (anyChar next?)

def skipBlanks : Scanner Unit := modify Text.trimStart

/-- One to `most` digits; as many as there are when no limit is given. -/
def number (most : Option Nat) : Scanner Nat := do
  let cs ← get
  let run := cs.takeWhile Char.isDigit
  let digits := most.elim run run.take
  if digits.isEmpty then failure
  set (cs.drop digits.length)
  return Text.natOfDigits digits

/-- A year has four digits at most unless it has a sign. -/
def year : Scanner Int := do
  skipBlanks
  match ← next? with
  | some '-' =>
    let _ ← anyChar
    return -(← number none : Nat)
  | some '+' =>
    let _ ← anyChar
    return (← number none : Nat)
  | _ => return (← number (some 4) : Nat)

def field (least most : Nat) : Scanner Nat := do
  skipBlanks
  let n ← number (some 2)
  if n < least || most < n then failure
  return n

def separator (c : Char) : Scanner Unit := do
  skipBlanks
  Scanner.char c

/-- Nanoseconds after a point; digits beyond the ninth are dropped. -/
def fraction : Scanner Nat := do
  match ← next? with
  | some '.' =>
    let _ ← anyChar
    let digits := (← get).takeWhile Char.isDigit
    if digits.isEmpty then failure
    modify (·.drop digits.length)
    let kept := digits.take 9
    return Text.natOfDigits kept * Nat.pow 10 (9 - kept.length)
  | _ => return 0

def twoDigits : Scanner Nat := do
  let a ← anyChar
  let b ← anyChar
  if a.isDigit && b.isDigit then return 10 * Text.digitValue a + Text.digitValue b else failure

/-- The offset from universal time, in seconds. -/
def offset : Scanner Int := do
  let cs ← get
  if (cs.take 3).map Char.toUpper = "UTC".toList then
    set (cs.drop 3)
    return 0
  else
    let c ← anyChar
    if c = 'Z' || c = 'z' then return 0
    else if c = '+' || c = '-' || c.toNat = 0x2212 then
      let hours ← twoDigits
      modify (·.dropWhile fun d => d = ':' || Text.isBlank d)
      let minutes ← twoDigits
      if 60 ≤ minutes || 24 ≤ hours then failure
      let n : Int := hours * 3600 + minutes * 60
      return if c = '+' then n else -n
    else failure

def scan : Scanner Instant := do
  let y ← year
  separator '-'
  let month ← field 1 12
  separator '-'
  let day ← field 1 31
  let between ← anyChar
  if between ≠ 't' && between ≠ 'T' && between ≠ ' ' then failure
  let hour ← field 0 23
  separator ':'
  let minute ← field 0 59
  separator ':'
  let second ← field 0 60
  let nanos ← fraction
  skipBlanks
  let shift ← offset
  skipBlanks
  if !(← get).isEmpty || !yearInRange y || monthLength y month < day then failure
  let whole := daysOfDate y month day * 86400 + hour * 3600 + minute * 60 + min second 59 - shift
  if !yearInRange (dateOfDays (whole.fdiv 86400)).1 then failure
  return ⟨whole, if second = 60 then nanos + 1000000000 else nanos⟩

def parse? (s : String) : Option Instant := (scan.run s.toList).map (·.1)

/-! ## Writing -/

def padded (width n : Nat) : List Char :=
  let digits := Nat.toDigits 10 n
  List.replicate (width - digits.length) '0' ++ digits

/-- Years beyond four digits carry a sign. -/
def yearChars (y : Int) : List Char :=
  if 0 ≤ y && y ≤ 9999 then padded 4 y.toNat
  else (if y < 0 then '-' else '+') :: padded 4 y.natAbs

/-- As many groups of three digits as are needed. -/
def fractionChars (nanos : Nat) : List Char :=
  if nanos = 0 then []
  else if nanos % 1000000 = 0 then '.' :: padded 3 (nanos / 1000000)
  else if nanos % 1000 = 0 then '.' :: padded 6 (nanos / 1000)
  else '.' :: padded 9 nanos

def render (t : Instant) : String :=
  let (y, month, day) := dateOfDays (t.seconds.fdiv 86400)
  let ofDay := (t.seconds.fmod 86400).toNat
  let leap := 1000000000 ≤ t.nanos
  let second := ofDay % 60 + (if leap then 1 else 0)
  String.ofList (yearChars y ++ '-' :: padded 2 month ++ '-' :: padded 2 day ++ 'T' ::
    padded 2 (ofDay / 3600) ++ ':' :: padded 2 (ofDay / 60 % 60) ++ ':' :: padded 2 second ++
    fractionChars (t.nanos % 1000000000) ++ ['Z'])

def toJson (t : Instant) : Json.Value := .text t.render

def reader : Json.Reader Instant := Json.refined Json.string parse?

end Instant

end Reanalysis
