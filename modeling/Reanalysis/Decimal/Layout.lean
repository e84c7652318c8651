import Reanalysis.Decimal.Shortest

/-!
# Writing numbers

How the fewest digits of a number are laid out. `record` is the layout of stored records,
`message` that of texts for people; `fixed` writes a given number of places instead.
-/

namespace Reanalysis.Decimal

structure Layout where
  tie : Tie
  /-- A number `0.d… * 10 ^ point` is written without an exponent when `least < point ≤ most`. -/
  positional : Option (Int × Int)
  /-- Whole numbers are written with a zero after the point. -/
  pointZero : Bool

/-- Stored numbers: a point and a digit after it always, an exponent from `1e+16` up and below
`1e-5`. -/
def record : Layout := ⟨.even, some (-5, 16), true⟩

/-- Numbers in messages: never an exponent, and no point in whole numbers. -/
def message : Layout := ⟨.up, none, false⟩

def zeros (n : Nat) : List Char := List.replicate n '0'

def decimalChars (n : Nat) : List Char := Nat.toDigits 10 n

def Layout.isPositional (l : Layout) (point : Int) : Bool :=
  match l.positional with
  | none => true
  | some (least, most) => least < point && point ≤ most

def positionalChars (l : Layout) (digits : List Char) (point : Int) : List Char :=
  if point ≤ 0 then '0' :: '.' :: (zeros (-point).toNat ++ digits)
  else
    let whole := digits.take point.toNat
    let part := digits.drop point.toNat
    let front := whole ++ zeros (point.toNat - digits.length)
    if !part.isEmpty then front ++ '.' :: part
    else if l.pointZero then front ++ ['.', '0']
    else front

def exponentChars (digits : List Char) (point : Int) : List Char :=
  let front := match digits with
    | [] => []
    | [d] => [d]
    | d :: rest => d :: '.' :: rest
  let e := point - 1
  front ++ 'e' :: (if 0 ≤ e then '+' else '-') :: decimalChars e.natAbs

def Layout.magnitudeChars (l : Layout) (x : Binary) : List Char :=
  if x.mantissa = 0 then (if l.pointZero then ['0', '.', '0'] else ['0'])
  else
    let d := x.shortest l.tie
    let digits := decimalChars d.digits
    let point := d.scale + digits.length
    if l.isPositional point then positionalChars l digits point else exponentChars digits point

def signed (negative : Bool) (cs : List Char) : List Char := if negative then '-' :: cs else cs

/-- What is written for a number that is not finite. -/
def specialChars (x : Float) : List Char :=
  if x.isNaN then "NaN".toList else signed (x < 0.0) "inf".toList

def Layout.chars (l : Layout) (x : Float) : List Char :=
  match Binary.ofFloat? x with
  | some b => signed b.negative (l.magnitudeChars b)
  | none => specialChars x

def Layout.render (l : Layout) (x : Float) : String := String.ofList (l.chars x)

/-- Exactly `places` digits after the point; the exact half goes to the even neighbour, and the
sign stays even when only zeros are left. -/
def fixed (places : Nat) (x : Float) : String :=
  match Binary.ofFloat? x with
  | none => String.ofList (specialChars x)
  | some b =>
    let (num, den) := b.ratio
    let scaled := roundRatio .even (num * Nat.pow 10 places) den
    let digits := decimalChars scaled
    let padded := zeros (places + 1 - digits.length) ++ digits
    let whole := padded.take (padded.length - places)
    let part := padded.drop (padded.length - places)
    String.ofList (signed b.negative (if places = 0 then whole else whole ++ '.' :: part))

def padLeft (width : Nat) (s : String) : String :=
  String.ofList (List.replicate (width - s.length) ' ' ++ s.toList)

def padRight (width : Nat) (s : String) : String :=
  String.ofList (s.toList ++ List.replicate (width - s.length) ' ')

end Reanalysis.Decimal
