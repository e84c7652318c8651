import Reanalysis.Decimal.Layout

/-!
# JSON values and their text

Members keep the order they are given in. Text is compact or indented by two blanks; a number
that is not finite is written as null.
-/

namespace Reanalysis.Json

inductive Value where
  | null
  | bool (b : Bool)
  | int (n : Int)
  | float (x : Float)
  | text (s : String)
  | list (items : List Value)
  | object (members : List (String × Value))
deriving Inhabited

namespace Value

def nat (n : Nat) : Value := .int n

end Value

def hexDigit (n : Nat) : Char := if n < 10 then Char.ofNat (48 + n) else Char.ofNat (87 + n)

/-- Quotes, backslashes and control characters are escaped, and nothing else is. -/
def escapeChar (c : Char) : List Char :=
  if c = '"' then ['\\', '"']
  else if c = '\\' then ['\\', '\\']
  else if c = '\n' then ['\\', 'n']
  else if c = '\r' then ['\\', 'r']
  else if c = '\t' then ['\\', 't']
  else if c = '\x08' then ['\\', 'b']
  else if c = '\x0c' then ['\\', 'f']
  else if c.toNat < 32 then
    ['\\', 'u', '0', '0', hexDigit (c.toNat / 16), hexDigit (c.toNat % 16)]
  else [c]

def quoted (s : String) : List Char := '"' :: (s.toList.flatMap escapeChar ++ ['"'])

def intChars (n : Int) : List Char :=
  if n < 0 then '-' :: Nat.toDigits 10 n.natAbs else Nat.toDigits 10 n.toNat

def floatChars (x : Float) : List Char :=
  if x.isFinite then Decimal.record.chars x else "null".toList

def commaSeparated : List (List Char) → List Char
  | [] => []
  | [x] => x
  | x :: y :: rest => x ++ ',' :: commaSeparated (y :: rest)

mutual

def Value.chars : Value → List Char
  | .null => "null".toList
  | .bool true => "true".toList
  | .bool false => "false".toList
  | .int n => intChars n
  | .float x => floatChars x
  | .text s => quoted s
  | .list items => '[' :: (commaSeparated (Value.itemChars items) ++ [']'])
  | .object members => '\x7b' :: (commaSeparated (Value.memberChars members) ++ ['\x7d'])

def Value.itemChars : List Value → List (List Char)
  | [] => []
  | v :: rest => v.chars :: Value.itemChars rest

def Value.memberChars : List (String × Value) → List (List Char)
  | [] => []
  | (k, v) :: rest => (quoted k ++ ':' :: v.chars) :: Value.memberChars rest

end

def Value.render (v : Value) : String := String.ofList v.chars

def indentation (depth : Nat) : List Char := '\n' :: List.replicate (2 * depth) ' '

/-- Items between brackets, each on a line of its own. -/
def spread (opening closing : Char) (depth : Nat) (items : List (List Char)) : List Char :=
  if items.isEmpty then [opening, closing]
  else opening :: (commaSeparated (items.map (indentation (depth + 1) ++ ·)) ++
    indentation depth ++ [closing])

mutual

def Value.prettyChars (depth : Nat) : Value → List Char
  | .list items => spread '[' ']' depth (Value.prettyItems (depth + 1) items)
  | .object members => spread '\x7b' '\x7d' depth (Value.prettyMembers (depth + 1) members)
  | .null => "null".toList
  | .bool true => "true".toList
  | .bool false => "false".toList
  | .int n => intChars n
  | .float x => floatChars x
  | .text s => quoted s

def Value.prettyItems (depth : Nat) : List Value → List (List Char)
  | [] => []
  | v :: rest => v.prettyChars depth :: Value.prettyItems depth rest

def Value.prettyMembers (depth : Nat) : List (String × Value) → List (List Char)
  | [] => []
  | (k, v) :: rest => (quoted k ++ ':' :: ' ' :: v.prettyChars depth) ::
    Value.prettyMembers depth rest

end

def Value.renderPretty (v : Value) : String := String.ofList (v.prettyChars 0)

/-- Members by name; of two members with one name the later one counts. -/
def putMember (k : String) (v : Value) : List (String × Value) → List (String × Value)
  | [] => [(k, v)]
  | (k', v') :: rest =>
    if k = k' then (k, v) :: rest
    else if k < k' then (k, v) :: (k', v') :: rest
    else (k', v') :: putMember k v rest

mutual

/-- The same value with the members of every object in the order of their names. -/
def Value.sorted : Value → Value
  | .list items => .list (Value.sortedItems items)
  | .object members => .object (Value.sortedMembers members)
  | .null => .null
  | .bool b => .bool b
  | .int n => .int n
  | .float x => .float x
  | .text s => .text s

def Value.sortedItems : List Value → List Value
  | [] => []
  | v :: rest => v.sorted :: Value.sortedItems rest

def Value.sortedMembers (members : List (String × Value)) : List (String × Value) :=
  Value.sortedFrom [] members

def Value.sortedFrom (done : List (String × Value)) :
    List (String × Value) → List (String × Value)
  | [] => done
  | (k, v) :: rest => Value.sortedFrom (putMember k v.sorted done) rest

end

def present (members : List (String × Option Value)) : List (String × Value) :=
  members.filterMap fun (k, v) => v.map (k, ·)

end Reanalysis.Json
