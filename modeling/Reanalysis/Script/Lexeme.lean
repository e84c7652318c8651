/-!
# The lexical grammar of scripts

Character classes, and the length of the token of a given class at the front of a text; a length of
zero says that there is none. No token has a null character in it.
-/

namespace Reanalysis.Script

def isPlainBlank (c : Char) : Bool :=
  c = ' ' || c = '\t' || c = '\n' || c = '\r' || c = '\x0b' || c = '\x0c'

def isSpace (c : Char) : Bool :=
  let n := c.toNat
  isPlainBlank c || n == 0xa0 || n == 0x1680 || (0x2000 ≤ n && n ≤ 0x200b) || n == 0x2028 ||
    n == 0x2029 || n == 0x202f || n == 0x205f || n == 0x2060 || n == 0x3000 || n == 0xfeff

def isSeparator (c : Char) : Bool := c.toNat == 0x2028 || c.toNat == 0x2029

def isLineEnd (c : Char) : Bool := c = '\n' || isSeparator c

def skipSpaces (cs : List Char) : List Char := cs.dropWhile isSpace

def startsWith (p : String) (cs : List Char) : Bool := p.toList.isPrefixOf cs

def isHex (c : Char) : Bool :=
  c.isDigit || ('a' ≤ c && c ≤ 'f') || ('A' ≤ c && c ≤ 'F')

/-! ## Comments -/

def closeLength? : List Char → Option Nat
  | '*' :: '/' :: _ => some 2
  | c :: rest => if c = '\x00' then none else (closeLength? rest).map (· + 1)
  | [] => none

def commentLength : List Char → Nat
  | '/' :: '/' :: rest => (rest.takeWhile fun c => !(c = '\x00' || c = '\r' || isLineEnd c)).length + 2
  | '/' :: '*' :: rest =>
    match closeLength? rest with
    | some n => n + 2
    | none => 0
  | _ => 0

/-- The length of a comment in the notation of a page around the script. -/
def pageCommentLength (cs : List Char) : Nat :=
  if startsWith "<!--" cs || startsWith "-->" cs then
    (cs.takeWhile fun c => !(c = '\x00' || isLineEnd c)).length
  else 0

def hashBangLength (cs : List Char) : Nat :=
  if startsWith "#!" cs then (cs.takeWhile fun c => !(c = '\x00' || c = '\n')).length else 0

/-! ## Words -/

def isWordChar (c : Char) : Bool :=
  !(c.toNat < 0x20 || isSpace c || ":;`\"'@#.,|^&<=>+-*/\\%?!~()[]\x7b\x7d".toList.contains c)

/-- The length of an escape in a word: `\u` with four digits, or with digits in braces. -/
def wordEscape : List Char → Nat
  | '\\' :: 'u' :: '\x7b' :: rest =>
    let digits := rest.takeWhile isHex
    if !digits.isEmpty && (rest.drop digits.length).head? = some '\x7d' then digits.length + 4
    else 0
  | '\\' :: 'u' :: rest => if (rest.take 4).length = 4 && (rest.take 4).all isHex then 6 else 0
  | _ => 0

/-- The length of the rest of a word; `skip` characters belong to an escape. -/
def wordRest : Nat → List Char → Nat
  | _, [] => 0
  | skip + 1, _ :: rest => wordRest skip rest + 1
  | 0, c :: rest =>
    if isWordChar c then wordRest 0 rest + 1
    else match wordEscape (c :: rest) with
      | 0 => 0
      | n + 1 => wordRest n rest + 1

def wordLength (cs : List Char) : Nat :=
  match cs with
  | [] => 0
  | c :: _ => if c.isDigit then 0 else wordRest 0 cs

def privateLength : List Char → Nat
  | '#' :: rest => if wordLength rest = 0 then 0 else wordLength rest + 1
  | _ => 0

/-! ## Numbers -/

/-- The length of digits, between which single low lines may stand. -/
def digitRun (p : Char → Bool) : List Char → Nat
  | c :: '_' :: d :: rest =>
    if !p c then 0
    else if p d then digitRun p (d :: rest) + 2
    else 1
  | c :: rest => if p c then digitRun p rest + 1 else 0
  | [] => 0

def isBinary (c : Char) : Bool := c = '0' || c = '1'

def isOctal (c : Char) : Bool := '0' ≤ c && c ≤ '7'

/-- A mark for a big integer, one character long. -/
def bigMark (cs : List Char) : Nat := if cs.head? = some 'n' then 1 else 0

def radixLength (upper lower : Char) (p : Char → Bool) : List Char → Nat
  | '0' :: c :: rest =>
    let run := digitRun p rest
    if (c = upper || c = lower) && 0 < run then run + 2 + bigMark (rest.drop run) else 0
  | _ => 0

def exponentLength : List Char → Nat
  | c :: rest =>
    if c = 'e' || c = 'E' then
      let sign := match rest.head? with
        | some '+' | some '-' => 1
        | _ => 0
      let run := digitRun Char.isDigit (rest.drop sign)
      if 0 < run then run + sign + 1 else 0
    else 0
  | [] => 0

/-- A whole part that a point or an exponent may follow: a lone zero, or at most one zero and then
another digit. -/
def isWholePart : List Char → Bool
  | ['0'] => true
  | '0' :: c :: _ => c.isDigit && c ≠ '0'
  | c :: _ => c.isDigit && c ≠ '0'
  | [] => false

def decimalLength (cs : List Char) : Nat :=
  let run := digitRun Char.isDigit cs
  let rest := cs.drop run
  if run = 0 then
    match cs with
    | '.' :: part =>
      let digits := digitRun Char.isDigit part
      if digits = 0 then 0 else digits + 1 + exponentLength (part.drop digits)
    | _ => 0
  else if rest.head? = some 'n' then run + 1
  else if isWholePart (cs.take run) then
    match rest with
    | '.' :: part =>
      let digits := digitRun Char.isDigit part
      run + 1 + digits + exponentLength (part.drop digits)
    | _ => run + exponentLength rest
  else run

def numberLength (cs : List Char) : Nat :=
  [radixLength 'X' 'x' isHex cs, radixLength 'B' 'b' isBinary cs, radixLength 'O' 'o' isOctal cs,
   decimalLength cs].foldl max 0

/-! ## Strings, templates and regular expressions -/

def escapeLength : List Char → Nat
  | '\\' :: 'x' :: rest => if (rest.take 2).length = 2 && (rest.take 2).all isHex then 4 else 0
  | '\\' :: 'u' :: rest => wordEscape ('\\' :: 'u' :: rest)
  | '\\' :: c :: d :: rest =>
    if isOctal c then ((c :: d :: rest).take 3 |>.takeWhile isOctal).length + 1
    else if c = '\x00' then 0
    else if (c = '\r' || c = '?') && isLineEnd d then 3
    else 2
  | ['\\', c] => if c = '\x00' then 0 else 2
  | _ => 0

def fragmentLength (q : Char) (cs : List Char) : Nat :=
  (cs.takeWhile fun c => !(c = q || c = '\\' || c = '\r' || c = '\n' || c = '\x00')).length

/-- The length of the plain characters of a template, which has to go on behind them. -/
def templateLength? : List Char → Option Nat
  | [] => none
  | '$' :: '\x7b' :: _ => some 0
  | c :: rest =>
    if c = '\x00' then none
    else if c = '\x60' || c = '\\' then some 0
    else (templateLength? rest).map (· + 1)

def isPatternEnd (c : Char) : Bool := c = '\n' || c = '\x00'

def classLength? : List Char → Option Nat
  | [] => none
  | ']' :: _ => some 1
  | '\\' :: c :: rest => if isPatternEnd c then none else (classLength? rest).map (· + 2)
  | c :: rest => if isPatternEnd c || c = '\\' then none else (classLength? rest).map (· + 1)

/-- The length of a pattern; `skip` characters belong to a class or to an escape. -/
def patternFrom : Nat → List Char → Nat
  | _, [] => 0
  | skip + 1, _ :: rest => patternFrom skip rest + 1
  | 0, c :: rest =>
    if c = '[' then match classLength? rest with
      | some n => patternFrom n rest + 1
      | none => 0
    else if c = '\\' then match rest with
      | d :: _ => if isPatternEnd d then 0 else patternFrom 1 rest + 1
      | [] => 0
    else if c = '/' || isPatternEnd c then 0
    else patternFrom 0 rest + 1

def patternLength (cs : List Char) : Nat := patternFrom 0 cs

def flagsLength (cs : List Char) : Nat := (cs.takeWhile fun c => 'a' ≤ c && c ≤ 'z').length

/-- The length of the words `static get` with the blanks behind them up to the end of a line. -/
def staticGetterLength (cs : List Char) : Nat :=
  if !startsWith "static" cs then 0
  else
    let inner := (cs.drop 6).takeWhile isPlainBlank
    let behind := cs.drop (6 + inner.length)
    if inner.isEmpty || !startsWith "get" behind then 0
    else
      let blanks := (behind.drop 3).takeWhile isPlainBlank
      if blanks.contains '\n' then
        9 + inner.length + (blanks.reverse.dropWhile (· ≠ '\n')).length
      else 0

/-! ## Markup -/

def isTagChar (c : Char) : Bool := c.isAlphanum || c = '_' || c = '$'

def tagNameLength (cs : List Char) : Nat :=
  let plain := (cs.takeWhile isTagChar).length
  if plain = 0 || cs.head?.any Char.isDigit || (cs.drop plain).head? ≠ some '-' then 0
  else plain + ((cs.drop plain).takeWhile fun c => isTagChar c || c = '-').length

def referenceLength : List Char → Nat
  | '&' :: '#' :: c :: rest =>
    let run :=
      if c = 'x' || c = 'X' then
        let digits := (rest.takeWhile isHex).length
        if 1 ≤ digits && digits ≤ 6 then digits + 1 else 0
      else
        let digits := ((c :: rest).takeWhile Char.isDigit).length
        if digits ≤ 5 then digits else 0
    if 0 < run && ((c :: rest).drop run).head? = some ';' then run + 3 else 0
  | '&' :: rest =>
    let run := (rest.takeWhile Char.isAlpha).length
    if 1 ≤ run && run ≤ 30 && (rest.drop run).head? = some ';' then run + 2 else 0
  | _ => 0

def attributeLength (q : Char) : List Char → Nat
  | '&' :: c :: rest =>
    if c = '#' || c.isAlpha || c = '\x00' then 0 else attributeLength q rest + 2
  | c :: rest => if c = q || c = '&' || c = '\x00' then 0 else attributeLength q rest + 1
  | [] => 0

/-- The length of the text between tags, which is more than the blanks around the end of a line. -/
def tagTextLength (cs : List Char) : Nat :=
  let text := cs.takeWhile fun c => !(c = '\x00' || "<>\x7b\x7d&".toList.contains c)
  let seen := text.foldl
    (fun (state : Bool × Bool) c =>
      if c = '\n' then (state.1, true)
      else
        let atLine := state.2 && isPlainBlank c
        (state.1 || !atLine, atLine))
    (false, false)
  if seen.1 then text.length else 0

end Reanalysis.Script
