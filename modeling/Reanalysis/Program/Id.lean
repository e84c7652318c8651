import Reanalysis.Json.Record

/-!
# Program ids

The programs of a corpus are numbered from one on, within 32 bits.
-/

namespace Reanalysis

structure ProgramId where
  number : Nat
  positive : 0 < number
  bounded : number < 0x100000000
deriving DecidableEq

namespace ProgramId

def ofNat? (n : Nat) : Option ProgramId :=
  if h : 0 < n ∧ n < 0x100000000 then some ⟨n, h.1, h.2⟩ else none

theorem ofNat?_number (id : ProgramId) : ofNat? id.number = some id :=
  dif_pos ⟨id.positive, id.bounded⟩

def upTo (n : Nat) : List ProgramId := (List.range n).filterMap fun i => ofNat? (i + 1)

def render (id : ProgramId) : String := toString id.number

instance : LT ProgramId := ⟨fun a b => a.number < b.number⟩

instance : LE ProgramId := ⟨fun a b => a.number ≤ b.number⟩

instance (a b : ProgramId) : Decidable (a < b) := inferInstanceAs (Decidable (a.number < b.number))

instance (a b : ProgramId) : Decidable (a ≤ b) := inferInstanceAs (Decidable (a.number ≤ b.number))

/-- Inserts an id into an ascending list; one that is there already is not repeated. -/
def insert (id : ProgramId) : List ProgramId → List ProgramId
  | [] => [id]
  | other :: rest =>
    if id < other then id :: other :: rest
    else if id = other then other :: rest
    else other :: insert id rest

/-- The ids that occur, ascending and each once. -/
def ascending (ids : List ProgramId) : List ProgramId := ids.foldr insert []

/-- What the last pair for an id says. -/
def latest? {α : Type} (pairs : List (ProgramId × α)) (id : ProgramId) : Option α :=
  (pairs.filter (·.1 = id)).getLast?.map (·.2)

def toJson (id : ProgramId) : Json.Value := .nat id.number

def reader : Json.Reader ProgramId := Json.refined (Json.natBelow 0x100000000) ofNat?

end ProgramId

end Reanalysis
