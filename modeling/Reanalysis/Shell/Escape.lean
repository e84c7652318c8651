import Reanalysis.Text.Bytes

/-!
# Escapes and formats

The backslash escapes of printed text, and the formats that place arguments in it. Octal escapes
give bytes, so the result need not be text.

Part of the system that the harness runs on, and of no result: see `Reanalysis.Shell.Launch`.
-/

namespace Reanalysis.Shell.Escape

/-! ## Numbers -/

def digits (cs : List Char) : Nat := cs.foldl (fun n c => 10 * n + (c.toNat - 48)) 0

def int? (s : String) : Option Int :=
  let cs := s.toList.dropWhile (· = ' ')
  let (sign, run) : Int × List Char := match cs with
    | '-' :: rest => (-1, rest)
    | '+' :: rest => (1, rest)
    | _ => (1, cs)
  if run.isEmpty || !run.all Char.isDigit then none else some (sign * (digits run : Int))

def isOctal (c : Char) : Bool := '0' ≤ c && c ≤ '7'

def hexDigit? (c : Char) : Option Nat :=
  if c.isDigit then some (c.toNat - 48)
  else if 'a' ≤ c && c ≤ 'f' then some (c.toNat - 87)
  else if 'A' ≤ c && c ≤ 'F' then some (c.toNat - 55)
  else none

/-- The number that a text starts with, and the rest: a zero in front makes it octal, and an x
after that hexadecimal. Without a digit there is none. -/
def natural? : List Char → Option (Nat × List Char)
  | '0' :: x :: c :: rest =>
    let octal := ('0' :: x :: c :: rest).takeWhile isOctal
    if (x = 'x' || x = 'X') && (hexDigit? c).isSome then
      let run := (c :: rest).takeWhile fun c => (hexDigit? c).isSome
      some (run.foldl (fun n c => 16 * n + (hexDigit? c).getD 0) 0, (c :: rest).drop run.length)
    else some (octal.foldl (fun n c => 8 * n + (c.toNat - 48)) 0,
      ('0' :: x :: c :: rest).drop octal.length)
  | '0' :: rest =>
    let run := rest.takeWhile isOctal
    some (run.foldl (fun n c => 8 * n + (c.toNat - 48)) 0, rest.drop run.length)
  | cs =>
    let run := cs.takeWhile Char.isDigit
    if run.isEmpty then none else some (digits run, cs.drop run.length)

/-- A number with blanks and a sign in front, and the rest. -/
def integer? (cs : List Char) : Option (Int × List Char) :=
  match cs.dropWhile fun c => c = ' ' || c = '\t' || c = '\n' with
  | '-' :: rest => (natural? rest).map fun (n, rest) => (-(n : Int), rest)
  | '+' :: rest => (natural? rest).map fun (n, rest) => ((n : Int), rest)
  | rest => (natural? rest).map fun (n, rest) => ((n : Int), rest)

def largest : Int := 0x7fffffffffffffff

/-- A number as a word with a sign holds it. -/
def wrapped (n : Int) : Int := Int.bmod n 0x10000000000000000

def clamped (n : Int) : Int := max (-largest - 1) (min largest n)

/-! ## Escapes -/

def control? : Char → Option UInt8
  | 'a' => some 7
  | 'b' => some 8
  | 'e' => some 27
  | 'f' => some 12
  | 'n' => some 10
  | 'r' => some 13
  | 't' => some 9
  | 'v' => some 11
  | '\\' => some 92
  | _ => none

/-- The octal digits that belong to an escape, at most so many, and what follows. -/
def octalRun (most : Nat) (cs : List Char) : List Char × List Char :=
  let run := (cs.take most).takeWhile isOctal
  (run, cs.drop run.length)

theorem length_octalRun_le (most : Nat) (cs : List Char) :
    (octalRun most cs).2.length ≤ cs.length := by
  simp [octalRun]

def octal (cs : List Char) : UInt8 :=
  (cs.foldl (fun (n : Nat) c => 8 * n + (c.toNat - 48)) 0).toUInt8

def charBytes (c : Char) : Bytes := Text.encode (String.ofList [c])

/-- What a backslash stands for with what follows it, and the rest. -/
def escaped (cs : List Char) : UInt8 × List Char :=
  match cs with
  | [] => (92, [])
  | c :: rest =>
    if isOctal c then (octal (octalRun 3 cs).1, (octalRun 3 cs).2)
    else match control? c with
      | some b => (b, rest)
      | none => (92, cs)

theorem length_escaped_le (cs : List Char) : (escaped cs).2.length ≤ cs.length := by
  have := length_octalRun_le 3 cs
  unfold escaped
  split
  · simp
  · split
    · assumption
    · split <;> simp

/-- An escape of an argument, after the backslash: octal ones may have another zero in front. -/
def argumentEscape : List Char → List Char
  | '0' :: c :: rest => if isOctal c then c :: rest else '0' :: c :: rest
  | cs => cs

theorem length_argumentEscape_le (cs : List Char) :
    (argumentEscape cs).length ≤ cs.length := by
  unfold argumentEscape
  split
  · split <;> simp
  · simp

/-- Expands the escapes of an argument. Tells whether the output is to end here. -/
def ofArgument : List Char → Bytes × Bool
  | [] => ([], false)
  | '\\' :: 'c' :: _ => ([], true)
  | '\\' :: rest =>
    have := length_escaped_le (argumentEscape rest)
    have := length_argumentEscape_le rest
    let (bytes, ends) := ofArgument (escaped (argumentEscape rest)).2
    ((escaped (argumentEscape rest)).1 :: bytes, ends)
  | c :: rest =>
    let (bytes, ends) := ofArgument rest
    (charBytes c ++ bytes, ends)
termination_by cs => cs.length

/-! ## Formats -/

/-- How wide something is shown, given in the format or by an argument. -/
inductive Measure where
  | absent
  | given (n : Nat)
  | argument
deriving DecidableEq, Repr

structure Directive where
  flags : List Char
  width : Measure
  precision : Measure
  kind : Char
  /-- As it is written. -/
  spelling : String
deriving Repr

inductive Item where
  | bytes (b : Bytes)
  | directive (d : Directive)
  | broken
deriving Repr

def measure (cs : List Char) : Measure × List Char :=
  match cs with
  | '*' :: rest => (.argument, rest)
  | _ =>
    let run := cs.takeWhile Char.isDigit
    (if run.isEmpty then .absent else .given (digits run), cs.drop run.length)

/-- Reads what follows a percent sign. -/
def directive? (cs : List Char) : Option (Directive × List Char) :=
  let flags := cs.takeWhile fun c => c ∈ ['#', '-', '+', ' ', '0']
  let (width, rest) := measure (cs.drop flags.length)
  let (precision, rest) := match rest with
    | '.' :: more => match measure more with
      | (.absent, after) => (Measure.given 0, after)
      | found => found
    | _ => (Measure.absent, rest)
  match rest with
  | kind :: after =>
    let spelling := String.ofList ('%' :: cs.take (cs.length - after.length))
    some (⟨flags, width, precision, kind, spelling⟩, after)
  | [] => none

/-- Splits a format into its items; `fuel` bounds their number. -/
def items : Nat → List Char → List Item
  | 0, _ => []
  | _, [] => []
  | fuel + 1, '%' :: '%' :: rest => .bytes [37] :: items fuel rest
  | fuel + 1, '%' :: rest =>
    match directive? rest with
    | some (d, after) => .directive d :: items fuel after
    | none => [.broken]
  | fuel + 1, '\\' :: rest =>
    let (b, after) := escaped rest
    .bytes [b] :: items fuel after
  | fuel + 1, c :: rest => .bytes (charBytes c) :: items fuel rest

/-- What has been made of a format so far. -/
structure Filled where
  /-- The last one first. -/
  chunks : List Bytes := []
  args : List String
  complaints : List String := []
  ends : Bool := false
  fault : Option String := none

namespace Filled

def add (f : Filled) (b : Bytes) : Filled := { f with chunks := b :: f.chunks }

def bytes (f : Filled) : Bytes := f.chunks.reverse.flatten

/-- Takes the next argument; one that is missing is empty. -/
def arg (f : Filled) : String × Filled := (f.args.headD "", { f with args := f.args.drop 1 })

/-- Takes the next argument as a number. A quote in front stands for the character after it. -/
def number (f : Filled) : Int × Filled :=
  match f.args with
  | [] => (0, f)
  | s :: rest =>
    let f := { f with args := rest }
    let complain (what : String) : Filled :=
      { f with complaints := f.complaints ++ [s ++ ": " ++ what] }
    match s.toList with
    | '\'' :: cs | '"' :: cs => (((Text.encode (String.ofList cs)).headD 0).toNat, f)
    | cs => match integer? cs with
      | none => (0, if cs.isEmpty then f else complain "expected numeric value")
      | some (n, []) => (n, f)
      | some (n, _) => (n, complain "not completely converted")

/-- A measure as a number, and whether it asks for the left side. -/
def measure (f : Filled) : Measure → Option Nat × Bool × Filled
  | .absent => (none, false, f)
  | .given n => (some n, false, f)
  | .argument =>
    let (n, f) := f.number
    (some n.natAbs, n < 0, f)

end Filled

/-- Fills up to a width. Zeros go between the sign and the digits. -/
def pad (left zeros : Bool) (width : Nat) (sign body : Bytes) : Bytes :=
  let missing := width - (sign.length + body.length)
  if left then sign ++ body ++ List.replicate missing 32
  else if zeros then sign ++ List.replicate missing 48 ++ body
  else List.replicate missing 32 ++ sign ++ body

def numeral (base : Nat) (upper : Bool) (least : Option Nat) (n : Nat) : Bytes :=
  let cs := if n = 0 && least = some 0 then [] else Nat.toDigits base n
  let cs := List.replicate (least.getD 0 - cs.length) '0' ++ cs
  Text.encode (String.ofList (if upper then cs.map Char.toUpper else cs))

/-- The decimal number that a text starts with, as a numerator over a power of ten. -/
def decimal (s : String) : Bool × Nat × Nat :=
  let (negative, cs) := match s.toList.dropWhile (· = ' ') with
    | '-' :: rest => (true, rest)
    | '+' :: rest => (false, rest)
    | rest => (false, rest)
  let whole := cs.takeWhile Char.isDigit
  let fraction := match cs.drop whole.length with
    | '.' :: rest => rest.takeWhile Char.isDigit
    | _ => []
  (negative, digits (whole ++ fraction), fraction.length)

/-- A decimal number with a fixed number of places, a half going to the even neighbour. -/
def fixed (places : Nat) (numerator scale : Nat) : Bytes :=
  let scaled := numerator * Nat.pow 10 places
  let unit := Nat.pow 10 scale
  let q := scaled / unit
  let r := scaled % unit
  let q := if unit < 2 * r || (2 * r = unit && q % 2 = 1) then q + 1 else q
  let whole := toString (q / Nat.pow 10 places)
  let fraction := toString (q % Nat.pow 10 places)
  let zeros := String.ofList (List.replicate (places - fraction.length) '0')
  Text.encode (if places = 0 then whole else whole ++ "." ++ zeros ++ fraction)

def fillDirective (d : Directive) (f : Filled) : Filled :=
  let (width, turned, f) := f.measure d.width
  let (precision, _, f) := f.measure d.precision
  let left := turned || d.flags.contains '-'
  let put (zeros : Bool) (sign body : Bytes) (f : Filled) : Filled :=
    f.add (pad left zeros (width.getD 0) sign body)
  let cut (b : Bytes) : Bytes := match precision with
    | some n => b.take n
    | none => b
  let zeros := d.flags.contains '0'
  let plus (negative : Bool) : Bytes :=
    if negative then [45] else if d.flags.contains '+' then [43]
    else if d.flags.contains ' ' then [32] else []
  let unsigned (base : Nat) (upper : Bool) (mark : Bytes) : Filled :=
    let (n, f) := f.number
    let n := (n % 0x10000000000000000).toNat
    let sign := if d.flags.contains '#' && n ≠ 0 then mark else []
    put (zeros && precision.isNone) sign (numeral base upper precision n) f
  match d.kind with
  | 's' =>
    let (s, f) := f.arg
    put false [] (cut (Text.encode s)) f
  | 'b' =>
    let (s, f) := f.arg
    let (bytes, ends) := ofArgument s.toList
    { put false [] (cut bytes) f with ends }
  | 'c' =>
    let (s, f) := f.arg
    put false [] (((Text.encode s).head?.getD 0) :: []) f
  | 'd' | 'i' =>
    let (n, f) := f.number
    let n := clamped n
    put (zeros && precision.isNone) (plus (n < 0)) (numeral 10 false precision n.natAbs) f
  | 'u' => unsigned 10 false []
  | 'o' => unsigned 8 false [48]
  | 'x' => unsigned 16 false [48, 120]
  | 'X' => unsigned 16 true [48, 88]
  | 'f' | 'F' =>
    let (s, f) := f.arg
    let (negative, numerator, scale) := decimal s
    put zeros (plus negative) (fixed (precision.getD 6) numerator scale) f
  | _ => { f with fault := some (d.spelling ++ ": invalid directive") }

def fill : List Item → Filled → Filled
  | [], f => f
  | .bytes b :: rest, f => fill rest (f.add b)
  | .broken :: _, f => { f with fault := some "missing format character" }
  | .directive d :: rest, f =>
    let f := fillDirective d f
    if f.ends || f.fault.isSome then f else fill rest f

def format (format : String) (args : List String) : Filled :=
  let found := items (format.length + 1) format.toList
  let rec again : Nat → Filled → Filled
    | 0, f => f
    | fuel + 1, f =>
      let filled := fill found f
      if filled.ends || filled.fault.isSome || filled.args.isEmpty
        || filled.args.length = f.args.length then filled
      else again fuel filled
  again (args.length + 1) { args }

end Reanalysis.Shell.Escape
