import Reanalysis.Text.Scanner

/-!
# TOML strings

Strings in double quotes know escapes, those in single quotes do not. Either kind may run over
several lines when it is put between three quotes.
-/

namespace Reanalysis.Toml

open Text (Scanner)
open Text.Scanner

/-- Tabs and everything that is no control character. -/
def isPlain (c : Char) : Bool := c = '\t' || (0x20 ≤ c.toNat && c.toNat ≠ 0x7f)

def isWhite (c : Char) : Bool := c = ' ' || c = '\t'

def whites : Scanner Unit := do let _ ← takeWhile isWhite

def newline : Scanner Unit := do
  match ← anyChar with
  | '\n' => return
  | '\r' => char '\n'
  | _ => failure

/-- The character with a code of exactly `n` hexadecimal digits. -/
def coded (n : Nat) : Scanner Char := do
  let cs ← get
  let digits := cs.take n
  if digits.length ≠ n || !digits.all (fun c => c.isDigit || ('a' ≤ c.toLower && c.toLower ≤ 'f'))
  then failure
  set (cs.drop n)
  let code := digits.foldl (fun acc c =>
    16 * acc + (if c.isDigit then c.toNat - 48 else c.toLower.toNat - 87)) 0
  if code.isValidChar then return Char.ofNat code else failure

def escaped : Scanner Char := do
  match ← anyChar with
  | 'b' => return '\x08'
  | 't' => return '\t'
  | 'n' => return '\n'
  | 'f' => return '\x0c'
  | 'r' => return '\r'
  | '"' => return '"'
  | '\\' => return '\\'
  | 'u' => coded 4
  | 'U' => coded 8
  | _ => failure

/-- A backslash at the end of a line takes away all blanks and line ends that follow. -/
def continued : Scanner Unit := do
  whites
  newline
  let _ ← many ((do let _ ← takeWhile1 isWhite) <|> newline)

def lineBody (quote : Char) : Scanner (List Char) :=
  loop (fun (done : List Char) => do
    let c ← anyChar
    if c = quote then return .inr done.reverse
    else if c = '\\' && quote = '"' then return .inl ((← escaped) :: done)
    else if isPlain c then return .inl (c :: done)
    else failure) []

/-- A string over several lines, behind its opening quotes. One or two quotes may stand anywhere in
it, also right before the closing ones. -/
def linesBody (quote : Char) : Scanner (List Char) :=
  loop (fun (done : List Char) => do
    let quotes ← takeWhile (· = quote)
    if 6 ≤ quotes.length then failure
    else if 3 ≤ quotes.length then return .inr (quotes.drop 3 ++ done).reverse
    else
      let done := quotes ++ done
      match ← next? with
      | none => failure
      | some c =>
        if c = '\\' && quote = '"' then
          char c
          (do continued; return .inl done) <|> (do return .inl ((← escaped) :: done))
        else if isPlain c then
          char c
          return .inl (c :: done)
        else
          newline
          return .inl ('\n' :: done)) []

def quotedBy (quote : Char) : Scanner (List Char) :=
  (do
    char quote; char quote; char quote
    let _ ← optional newline
    linesBody quote) <|>
  (do char quote; lineBody quote)

/-- A string on one line, as it may stand for a key. -/
def quotedKey (quote : Char) : Scanner (List Char) := do
  char quote
  lineBody quote

end Reanalysis.Toml
