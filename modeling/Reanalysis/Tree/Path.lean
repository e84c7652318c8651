import Reanalysis.Json.Record
import Reanalysis.Text.Split

/-!
# Structural paths

A statement of a program is addressed by its index in each list of statements around it and by the
arm of each conditional around it. `precedence` says how two statements lie to each other on an
execution: statements that part in a list run in the order of the list, and statements that part
at a conditional never run both.
-/

namespace Reanalysis

inductive Segment where
  | index (i : Nat)
  | thenArm
  | elseArm
deriving DecidableEq, Repr

namespace Segment

def chars : Segment → List Char
  | .index i => Nat.toDigits 10 i
  | .thenArm => "then".toList
  | .elseArm => "else".toList

/-- Indices come first, then the two arms. -/
def compare : Segment → Segment → Ordering
  | .index i, .index j => Ord.compare i j
  | .index _, _ => .lt
  | .thenArm, .index _ => .gt
  | .thenArm, .thenArm => .eq
  | .thenArm, .elseArm => .lt
  | .elseArm, .elseArm => .eq
  | .elseArm, _ => .gt

def parse? (cs : List Char) : Option Segment :=
  if cs = "then".toList then some .thenArm
  else if cs = "else".toList then some .elseArm
  else (Text.boundedNat? 0x10000000000000000 cs).map .index

end Segment

abbrev Path := List Segment

/-- How the first of two statements lies to the second. -/
inductive Precedence where
  | before
  | after
  | encloses
  | inside
  /-- In different arms of one conditional. -/
  | exclusive
  | same
deriving DecidableEq, Repr

namespace Path

def child (p : Path) (s : Segment) : Path := p ++ [s]

def isPrefixOf (p q : Path) : Bool := List.isPrefixOf p q

def precedence : Path → Path → Precedence
  | [], [] => .same
  | [], _ :: _ => .encloses
  | _ :: _, [] => .inside
  | s :: p, t :: q =>
    if s = t then precedence p q
    else match s, t with
      | .index i, .index j => if i < j then .before else .after
      | _, _ => .exclusive

/-- The order of the document: segment by segment, and a path before what it encloses. -/
def compare : Path → Path → Ordering
  | [], [] => .eq
  | [], _ :: _ => .lt
  | _ :: _, [] => .gt
  | s :: p, t :: q => (s.compare t).then (compare p q)

def le (p q : Path) : Bool := compare p q ≠ .gt

def sort (ps : List Path) : List Path := ps.mergeSort le

def chars (p : Path) : List Char := Text.join '.' (p.map Segment.chars)

def render (p : Path) : String := String.ofList p.chars

/-- The segments behind the parts of a text, or the first part that is none. -/
def ofParts : List (List Char) → Except String Path
  | [] => .ok []
  | part :: parts =>
    match Segment.parse? part with
    | none => .error (String.ofList part)
    | some s => (ofParts parts).map (s :: ·)

/-- The empty text is the path of the whole program. -/
def parse (s : String) : Except String Path :=
  if s.isEmpty then .ok [] else ofParts (Text.split '.' s.toList)

def errorMessage (part : String) : String := s!"invalid path segment: '{part}'"

def toJson (p : Path) : Json.Value := .text p.render

def reader : Json.Reader Path := Json.refined Json.string fun s => (parse s).toOption

end Path

end Reanalysis
