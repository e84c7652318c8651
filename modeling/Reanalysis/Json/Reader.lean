import Reanalysis.Json.Number
import Reanalysis.Json.Value
import Reanalysis.Text.Bytes

/-!
# Reading JSON

Readers walk through the text from left to right, so that the first fault in the text decides how
a text is refused. A value that nobody asked for is passed over by `ignored`, which checks its
form but neither the range of its numbers nor the pairing of its surrogates.
-/

namespace Reanalysis.Json

inductive Fault where
  | malformed
  /-- JSON of another shape than the one asked for. -/
  | mistyped
  /-- The text ends too early. -/
  | truncated
deriving DecidableEq, Repr

abbrev Reader := StateT (List Char) (Except Fault)

def isSpace (c : Char) : Bool := c = ' ' || c = '\n' || c = '\t' || c = '\r'

/-- The next character that is not a blank, which stays in place. -/
def look : Reader (Option Char) := do
  modify (·.dropWhile isSpace)
  return (← get).head?

def advance : Reader Unit := modify (·.drop 1)

def lookValue : Reader Char := do
  match ← look with
  | some c => return c
  | none => throw .truncated

def word : List Char → Reader Unit
  | [] => return ()
  | w :: rest => do
    match ← get with
    | [] => throw .truncated
    | c :: cs => if c = w then set cs; word rest else throw .malformed

/-! ## Numbers -/

def digits : Reader (List Char) := do
  let cs ← get
  set (cs.dropWhile Char.isDigit)
  return cs.takeWhile Char.isDigit

/-- Digits of which there has to be one; `early` is the fault when the text ends instead. -/
def someDigits (early : Fault) : Reader (List Char) := do
  let ds ← digits
  if ds.isEmpty then throw (if (← get).isEmpty then early else .malformed)
  return ds

/-- A number literal. `early` is the fault when the text ends inside it. -/
def literal (early : Fault) : Reader Literal := do
  let minus := (← get).head? == some '-'
  if minus then advance
  let whole ← someDigits early
  if whole.head? = some '0' && 1 < whole.length then throw .malformed
  let part ← if (← get).head? = some '.' then
      advance
      pure (some (← someDigits early))
    else pure none
  let exponent ← match (← get).head? with
    | some 'e' | some 'E' =>
      advance
      let sign := (← get).head?
      if sign = some '+' || sign = some '-' then advance
      pure (some (sign == some '-', ← someDigits early))
    | _ => pure none
  return ⟨minus, whole, part, exponent⟩

def number : Reader Number := do
  match (← literal .truncated).number? with
  | some n => return n
  | none => throw .malformed

/-! ## Strings -/

def hexValue? (c : Char) : Option Nat :=
  if c.isDigit then some (c.toNat - 48)
  else if 'a' ≤ c && c ≤ 'f' then some (c.toNat - 87)
  else if 'A' ≤ c && c ≤ 'F' then some (c.toNat - 55)
  else none

/-- Four hexadecimal digits. A text that is over within their four bytes ends too early. -/
def hexCode : Reader Nat := do
  let cs ← get
  match cs.take 4 |>.mapM hexValue? with
  | some [a, b, c, d] =>
    set (cs.drop 4)
    return ((a * 16 + b) * 16 + c) * 16 + d
  | _ => throw (if ((cs.take 4).map Char.utf8Size).foldl (· + ·) 0 < 4 then .truncated else .malformed)

def expectInString (c : Char) : Reader Unit := do
  match ← get with
  | [] => throw .truncated
  | d :: rest => if c = d then set rest else throw .malformed

/-- The character of a `\u` escape. Characters beyond the first plane are a pair of escapes. -/
def unicodeEscape : Reader Char := do
  let n ← hexCode
  if 0xdc00 ≤ n && n ≤ 0xdfff then throw .malformed
  else if 0xd800 ≤ n && n ≤ 0xdbff then
    expectInString '\\'
    expectInString 'u'
    let low ← hexCode
    if 0xdc00 ≤ low && low ≤ 0xdfff then
      return Char.ofNat ((n - 0xd800) * 1024 + (low - 0xdc00) + 0x10000)
    else throw .malformed
  else return Char.ofNat n

def shortEscape? (c : Char) : Option Char :=
  if c = '"' || c = '\\' || c = '/' then some c
  else if c = 'b' then some '\x08'
  else if c = 'f' then some '\x0c'
  else if c = 'n' then some '\n'
  else if c = 'r' then some '\r'
  else if c = 't' then some '\t'
  else none

/-- The rest of a string after its opening quote; `unicode` reads what follows `\u`. -/
def stringFrom (unicode : Reader Char) : Nat → Reader (List Char)
  | 0 => throw .truncated
  | fuel + 1 => do
    match ← get with
    | [] => throw .truncated
    | '"' :: rest => set rest; return []
    | '\\' :: [] => throw .truncated
    | '\\' :: e :: rest =>
      set rest
      let c ← if e = 'u' then unicode else match shortEscape? e with
        | some c => pure c
        | none => throw .malformed
      return c :: (← stringFrom unicode fuel)
    | c :: rest =>
      if c.toNat < 32 then throw .malformed
      set rest
      return c :: (← stringFrom unicode fuel)

def stringBody : Reader String := do
  return String.ofList (← stringFrom unicodeEscape ((← get).length + 1))

def skipString : Reader Unit := do
  let _ ← stringFrom (do let _ ← hexCode; return ' ') ((← get).length + 1)

/-! ## Lists and objects -/

def nextElement (first : Bool) : Reader Bool := do
  match ← look with
  | none => throw .truncated
  | some ']' => return false
  | some c =>
    if first then return true
    else if c = ',' then
      advance
      match ← look with
      | none => throw .truncated
      | some ']' => throw .malformed
      | some _ => return true
    else throw .malformed

/-- Before a member of an object: its name, if there is one. -/
def nextName (first : Bool) : Reader (Option String) := do
  match ← look with
  | none => throw .truncated
  | some '\x7d' => return none
  | some c =>
    if first then
      if c = '"' then advance; return some (← stringBody) else throw .malformed
    else if c = ',' then
      advance
      match ← look with
      | none => throw .truncated
      | some '"' => advance; return some (← stringBody)
      | some _ => throw .malformed
    else throw .malformed

def colon : Reader Unit := do
  match ← look with
  | none => throw .truncated
  | some ':' => advance
  | some _ => throw .malformed

/-- The elements up to the closing bracket, which is consumed. -/
def elementsFrom {α : Type} (element : Reader α) : Nat → Bool → Reader (List α)
  | 0, _ => throw .truncated
  | fuel + 1, first => do
    if ← nextElement first then
      let x ← element
      return x :: (← elementsFrom element fuel false)
    else
      advance
      return []

/-- The members up to the closing brace, which is consumed. `member` reads from the colon on. -/
def membersFrom {σ : Type} (member : String → σ → Reader σ) : Nat → Bool → σ → Reader σ
  | 0, _, _ => throw .truncated
  | fuel + 1, first, state => do
    match ← nextName first with
    | some name => membersFrom member fuel false (← member name state)
    | none =>
      advance
      return state

def elements {α : Type} (element : Reader α) : Reader (List α) := do
  elementsFrom element ((← get).length + 1) true

def members {σ : Type} (member : String → σ → Reader σ) (state : σ) : Reader σ := do
  membersFrom member ((← get).length + 1) true state

/-! ## Values without a type -/

/-- Passes over a value. `fuel` bounds the depth. -/
def skipFrom : Nat → Reader Unit
  | 0 => throw .truncated
  | fuel + 1 => do
    let c ← lookValue
    if c = 'n' then word "null".toList
    else if c = 't' then word "true".toList
    else if c = 'f' then word "false".toList
    else if c = '-' || c.isDigit then let _ ← literal .malformed
    else if c = '"' then advance; skipString
    else if c = '[' then
      advance
      let _ ← elements (skipFrom fuel)
    else if c = '\x7b' then
      advance
      skipMembers (skipFrom fuel) ((← get).length + 1) true
    else throw .malformed
where
  skipMembers (value : Reader Unit) : Nat → Bool → Reader Unit
  | 0, _ => throw .truncated
  | fuel + 1, first => do
    match ← look with
    | none => throw .truncated
    | some '\x7d' => advance
    | some c =>
      if !first then
        if c = ',' then advance else throw .malformed
      match ← look with
      | none => throw .truncated
      | some '"' =>
        advance
        skipString
        colon
        value
        skipMembers value fuel false
      | some _ => throw .malformed

def ignored : Reader Unit := do skipFrom ((← get).length + 1)

/-- A value with at most `depth` brackets open at once. -/
def value : Nat → Reader Value
  | 0 => scalar (throw .malformed) (throw .malformed)
  | depth + 1 => scalar
      (do return .list (← elements (value depth)))
      (do
        let done ← members (fun name done => do
          colon
          return (name, ← value depth) :: done) []
        return .object done.reverse)
where
  /-- `list` and `object` read on after the opening bracket. -/
  scalar (list object : Reader Value) : Reader Value := do
    let c ← lookValue
    if c = 'n' then word "null".toList; return .null
    else if c = 't' then word "true".toList; return .bool true
    else if c = 'f' then word "false".toList; return .bool false
    else if c = '-' || c.isDigit then
      match ← number with
      | .nat n => return .nat n
      | .negative n => return .int (-n)
      | .float x => return .float x
    else if c = '"' then advance; return .text (← stringBody)
    else if c = '[' then advance; list
    else if c = '\x7b' then advance; object
    else throw .malformed

/-- The number of brackets that may be open at once. -/
def depthLimit : Nat := 127

def captured {α : Type} (r : Reader α) : Reader (List Char) := do
  let before ← get
  let _ ← r
  let after ← get
  return before.take (before.length - after.length)

/-- Reads a whole text: after the value only blanks may follow. -/
def readWhole {α : Type} (r : Reader α) (cs : List Char) : Except Fault α := do
  let (a, rest) ← r.run cs
  if (rest.dropWhile isSpace).isEmpty then return a else throw .malformed

def read {α : Type} (r : Reader α) (s : String) : Except Fault α := readWhole r s.toList

/-- Puts characters in the place of bytes that are none. A string with such bytes can be passed over
but not read, and so can a string that ends with half of a surrogate pair; the string is given one.
`inside` says that a string is open and `torn` that it has such bytes. -/
def mend (inside torn : Bool) : List (Option Char) → List Char
  | [] => []
  | none :: rest => '\x7f' :: mend inside inside rest
  | some '"' :: rest =>
    if inside && torn then "\\ud800\"".toList ++ mend false false rest
    else '"' :: mend (!inside) false rest
  | some '\\' :: c :: rest => '\\' :: c.getD '\x7f' :: mend inside (torn || (inside && c.isNone)) rest
  | some c :: rest => c :: mend inside torn rest

def readBytes {α : Type} (r : Reader α) (bytes : Bytes) : Except Fault α :=
  match Text.decode? bytes with
  | some s => read r s
  | none => readWhole r (mend false false (Text.pieces bytes))

end Reanalysis.Json
