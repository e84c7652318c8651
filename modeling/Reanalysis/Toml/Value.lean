/-!
# TOML values

Tables remember how they came to be, because that decides whether later lines may add to them.
-/

namespace Reanalysis.Toml

inductive Origin where
  /-- Written in braces; nothing can be added. -/
  | inline
  | header
  /-- Only passed through by a header so far. -/
  | implied
  /-- Passed through by a key with points in it. -/
  | dotted
deriving DecidableEq, Repr

inductive Value where
  | text (s : String)
  | int (i : Int)
  | float (x : Float)
  | bool (b : Bool)
  /-- A date, a time, or both; which one does not matter here. -/
  | moment
  | list (vs : List Value)
  | table (origin : Origin) (entries : List (String × Value))
  /-- Tables with headers in double brackets. -/
  | tables (ts : List (List (String × Value)))

abbrev Entries := List (String × Value)

namespace Entries

def replace (es : Entries) (key : String) (v : Value) : Entries :=
  es.map fun e => if e.1 = key then (key, v) else e

/-- Changes the table that a path leads to, and makes the tables on the way. In a list of tables
the last one counts. -/
def within (dotted : Bool) (f : Origin → Entries → Option Entries) :
    List String → Origin → Entries → Option Entries
  | [], origin, es => f origin es
  | key :: path, _, es => do
    match es.lookup key with
    | none =>
      let fresh := if dotted then .dotted else .implied
      return es ++ [(key, .table fresh (← within dotted f path fresh []))]
    | some (.table origin inner) =>
      if origin = .inline || (dotted && origin = .header) then failure
      return es.replace key (.table origin (← within dotted f path origin inner))
    | some (.tables ts) =>
      let last ← ts.getLast?
      return es.replace key (.tables (ts.dropLast ++ [← within dotted f path .header last]))
    | some _ => failure

/-- Adds a value under a key with points in it. A key is given once only, and such a key adds to no
table that a header has opened. -/
def put (es : Entries) (path : List String) (key : String) (v : Value) : Option Entries :=
  es.within true (fun origin inner =>
    if (inner.lookup key).isSome || (!path.isEmpty && origin ≠ .dotted) then none
    else some (inner ++ [(key, v)])) path .header

def openTable (es : Entries) (path : List String) (key : String) : Option Entries :=
  es.within false (fun _ inner =>
    match inner.lookup key with
    | none => some (inner ++ [(key, .table .header [])])
    | some (.table .implied sub) => some (inner.replace key (.table .header sub))
    | some _ => none) path .header

def openTables (es : Entries) (path : List String) (key : String) : Option Entries :=
  es.within false (fun _ inner =>
    match inner.lookup key with
    | none => some (inner ++ [(key, .tables [[]])])
    | some (.tables ts) => some (inner.replace key (.tables (ts ++ [[]])))
    | some _ => none) path .header

end Entries

/-! ## What a value can be taken for -/

namespace Value

def text? : Value → Option String
  | .text s => some s
  | _ => none

def natBelow? (bound : Nat) : Value → Option Nat
  | .int i => if 0 ≤ i && i < bound then some i.toNat else none
  | _ => none

def list? : Value → Option (List Value)
  | .list vs => some vs
  | .tables ts => some (ts.map (.table .header))
  | _ => none

def texts? (v : Value) : Option (List String) := do (← v.list?).mapM text?

/-- The entries of a record. Values without names are taken in the order of the names; those that
are left over do not count. -/
def record? (names : List String) : Value → Option Entries
  | .table _ es => some es
  | v => v.list?.map names.zip

end Value

end Reanalysis.Toml
