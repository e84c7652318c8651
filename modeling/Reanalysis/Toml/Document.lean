import Reanalysis.Toml.Quoted
import Reanalysis.Toml.Scalar

/-!
# TOML documents

Reads a whole document into the entries of its top-level table. Why a text is no document is not
told.
-/

namespace Reanalysis.Toml

open Text (Scanner)
open Text.Scanner

def depthLimit : Nat := 80

def comment : Scanner Unit := do
  char '#'
  let _ ← takeWhile isPlain

/-- Blanks, line ends and comments. -/
def gap : Scanner Unit := do
  let _ ← many ((do let _ ← takeWhile1 isWhite) <|> newline <|> comment)

/-! ## Keys -/

def isBare (c : Char) : Bool := c.isAlphanum || c = '_' || c = '-'

def simpleKey : Scanner String := do
  let cs ← match ← next? with
    | some '"' => quotedKey '"'
    | some '\'' => quotedKey '\''
    | _ => takeWhile1 isBare
  return String.ofList cs

/-- Keys with points between them: the way, and the last one. -/
def key : Scanner (List String × String) := do
  whites
  let first ← simpleKey
  whites
  let rest ← many do
    char '.'
    whites
    let k ← simpleKey
    whites
    return k
  let all := first :: rest
  if depthLimit ≤ all.length then failure
  return (all.dropLast, all.getLast?.getD first)

/-! ## Values -/

def arrayBody (value : Scanner Value) : Scanner Value := do
  char '['
  loop (fun (done : List Value) => do
    gap
    if (← next?) = some ']' then
      char ']'
      return .inr (.list done.reverse)
    else
      let v ← value
      gap
      match ← anyChar with
      | ',' => return .inl (v :: done)
      | ']' => return .inr (.list (v :: done).reverse)
      | _ => failure) []

/-- Adds an entry to a table that is being written in braces. -/
def inlineEntry (value : Scanner Value) (es : Entries) : Scanner Entries := do
  let (path, k) ← key
  char '='
  whites
  let v ← value
  whites
  es.put path k v

def inlineBody (value : Scanner Value) : Scanner Value := do
  char '\x7b'
  whites
  if (← next?) = some '\x7d' then
    char '\x7d'
    return .table .inline []
  else
    loop (fun (es : Entries) => do
      let es ← inlineEntry value es
      match ← anyChar with
      | ',' => return .inl es
      | '\x7d' => return .inr (.table .inline es)
      | _ => failure) []

def simpleValue : Scanner Value := do
  match ← next? with
  | some '"' => return .text (String.ofList (← quotedBy '"'))
  | some '\'' => return .text (String.ofList (← quotedBy '\''))
  | _ => scalar

/-- A value with at most so many brackets and braces around its parts. -/
def value : Nat → Scanner Value
  | 0 => simpleValue
  | depth + 1 => do
    match ← next? with
    | some '[' => arrayBody (value depth)
    | some '\x7b' => inlineBody (value depth)
    | _ => simpleValue

/-! ## Lines -/

def lineEnd : Scanner Unit := do
  whites
  let _ ← optional comment
  if !(← get).isEmpty then newline

structure Draft where
  entries : Entries
  path : List String

def tableHeader (d : Draft) : Scanner Draft := do
  char '['
  let (path, k) ← key
  char ']'
  return ⟨← d.entries.openTable path k, path ++ [k]⟩

def tablesHeader (d : Draft) : Scanner Draft := do
  literal "[["
  let (path, k) ← key
  literal "]]"
  return ⟨← d.entries.openTables path k, path ++ [k]⟩

def entry (d : Draft) : Scanner Draft := do
  let (path, k) ← key
  char '='
  whites
  let v ← value (depthLimit - 1)
  return { d with entries := ← d.entries.within false (fun _ es => es.put path k v) d.path .header }

def line (d : Draft) : Scanner Draft := do
  whites
  match ← get with
  | [] => failure
  | '[' :: '[' :: _ =>
    let d ← tablesHeader d
    lineEnd
    return d
  | '[' :: _ =>
    let d ← tableHeader d
    lineEnd
    return d
  | c :: _ =>
    if c = '#' || c = '\n' || c = '\r' then
      lineEnd
      return d
    else
      let d ← entry d
      lineEnd
      return d

/-- A mark of the byte order may stand in front. -/
def document : Scanner Entries := do
  let _ ← optional (char '\ufeff')
  loop (fun (d : Draft) => do
    whites
    if (← get).isEmpty then return .inr d.entries else return .inl (← line d)) ⟨[], []⟩

def parse? (s : String) : Option Entries := document.whole? s

end Reanalysis.Toml
