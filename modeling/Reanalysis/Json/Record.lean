import Reanalysis.Json.Reader

/-!
# Typed reading

Readers for numbers with a range, strings, named alternatives, lists and records. A record is an
object whose members come in any order, or a list of its members in their order. A member may not
come twice, and members nobody asked for are passed over.
-/

namespace Reanalysis.Json

/-- Refuses the value that starts with `c`. A word, a number or a string is read to its end first,
so that a fault inside it counts. -/
def mismatch {α : Type} (c : Char) : Reader α := do
  if c = 'n' then word "null".toList; throw .mistyped
  else if c = 't' then word "true".toList; throw .mistyped
  else if c = 'f' then word "false".toList; throw .mistyped
  else if c = '-' || c.isDigit then let _ ← number; throw .mistyped
  else if c = '"' then
    advance
    let _ ← stringBody
    throw .mistyped
  else if c = '[' || c = '\x7b' then throw .mistyped
  else throw .malformed

def typedNumber {α : Type} (convert : Number → Option α) : Reader α := do
  let c ← lookValue
  if c = '-' || c.isDigit then
    match convert (← number) with
    | some a => return a
    | none => throw .mistyped
  else mismatch c

def natBelow (bound : Nat) : Reader Nat :=
  typedNumber fun
    | .nat n => if n < bound then some n else none
    | _ => none

def nat64 : Reader Nat := natBelow wordBound

def int32 : Reader Int :=
  typedNumber fun
    | .nat n => if n < 0x80000000 then some (n : Int) else none
    | .negative n => if n ≤ 0x80000000 then some (-(n : Int)) else none
    | .float _ => none

def float : Reader Float :=
  typedNumber fun
    | .nat n => some (floatOfNat n)
    | .negative n => some (-(floatOfNat n))
    | .float x => some x

def string : Reader String := do
  let c ← lookValue
  if c = '"' then advance; stringBody else mismatch c

/-- A value that is made from another one, if it can be. -/
def refined {α β : Type} (r : Reader α) (make : α → Option β) : Reader β := do
  match make (← r) with
  | some b => return b
  | none => throw .mistyped

def nullable {α : Type} (r : Reader α) : Reader (Option α) := do
  if (← look) = some 'n' then word "null".toList; return none
  else return some (← r)

/-- One of several names, alone or as the only member of an object, with null as its value. -/
def named {α : Type} (find : String → Option α) : Reader α := do
  let c ← lookValue
  if c = '"' then
    advance
    match find (← stringBody) with
    | some a => return a
    | none => throw .mistyped
  else if c = '\x7b' then
    advance
    if (← lookValue) ≠ '"' then throw .malformed
    let a ← refined string find
    colon
    let c ← lookValue
    if c = 'n' then word "null".toList else mismatch c
    match ← look with
    | some '\x7d' => advance; return a
    | some _ => throw .malformed
    | none => throw .truncated
  else throw .malformed

def listOf {α : Type} (r : Reader α) : Reader (List α) := do
  let c ← lookValue
  if c = '[' then advance; elements r else mismatch c

/-- A member of a record that is being read into a draft of type `σ`. -/
structure Member (σ : Type) where
  name : String
  taken : σ → Bool
  read : σ → Reader σ
  /-- The list form may end before it. -/
  trailing : Bool

def Member.required {σ β : Type} (name : String) (get : σ → Option β) (put : σ → β → σ)
    (r : Reader β) : Member σ :=
  ⟨name, fun s => (get s).isSome, fun s => do return put s (← r), false⟩

def Member.optional {σ β : Type} (name : String) (get : σ → Option (Option β))
    (put : σ → Option β → σ) (r : Reader β) : Member σ :=
  ⟨name, fun s => (get s).isSome, fun s => do return put s (← nullable r), true⟩

/-- Reads the member `name` from its colon on; `other` reads one that is not in the list. -/
def memberOf {σ : Type} (ms : List (Member σ)) (other : String → σ → Reader σ) (name : String)
    (s : σ) : Reader σ := do
  match ms.find? (·.name = name) with
  | some m =>
    if m.taken s then throw .mistyped
    colon
    m.read s
  | none => other name s

def passOver {σ : Type} (_ : String) (s : σ) : Reader σ := do
  colon
  ignored
  return s

/-- The members of a record as a list. -/
def positional {σ : Type} : List (Member σ) → Bool → σ → Reader σ
  | [], _, s => do
    match ← look with
    | some ']' => advance; return s
    | some _ => throw .malformed
    | none => throw .truncated
  | m :: rest, first, s => do
    if ← nextElement first then positional rest false (← m.read s)
    else if m.trailing then positional rest false s
    else throw .mistyped

/-- A record that is read into a draft and made from it at the end. -/
def record {σ α : Type} (ms : List (Member σ)) (draft : σ) (make : σ → Option α) : Reader α := do
  let c ← lookValue
  let s ← if c = '[' then
      advance
      positional ms true draft
    else if c = '\x7b' then
      advance
      members (memberOf ms passOver) draft
    else mismatch c
  match make s with
  | some a => return a
  | none => throw .mistyped

end Reanalysis.Json
