import Reanalysis.Script.Phrase
import Reanalysis.Script.Token

/-!
# Rules

A phrase is given by clauses. The body of a clause says which symbols may stand in a row; the rest
of it decides between readings of the same text. A reading of higher rank is taken at once, among
equals the side decides, and of readings that go on side by side the one of greater weight wins.
-/

namespace Reanalysis.Script

inductive Symbol where
  | token (t : Token)
  | phrase (p : Phrase)
deriving DecidableEq, Hashable, Repr, Inhabited

inductive Rule where
  | symbol (x : Symbol)
  | inField (f : Field) (r : Rule)
  | sequence (rs : List Rule)
  | choice (rs : List Rule)

instance : Coe String Rule := ⟨fun s => .symbol (.token (.fixed s))⟩

instance : Coe Token Rule := ⟨fun t => .symbol (.token t)⟩

instance : Coe Phrase Rule := ⟨fun p => .symbol (.phrase p)⟩

namespace Rule

def seq (rs : List Rule) : Rule := .sequence rs

def oneOf (rs : List Rule) : Rule := .choice rs

def anyOf (texts : List String) : Rule :=
  .choice (texts.map fun s => .symbol (.token (.fixed s)))

def opt (r : Rule) : Rule := .choice [r, .sequence []]

end Rule

/-- One place in a row of symbols. -/
structure Step where
  symbol : Symbol
  field : Option Field
deriving DecidableEq, Repr

namespace Rule

mutual

/-- The rows of symbols that a rule allows. -/
def rows : Rule → List (List Step)
  | .symbol x => [[⟨x, none⟩]]
  | .inField f r => r.rows.map (·.map fun s => { s with field := some f })
  | .sequence rs => rowsInTurn rs
  | .choice rs => rowsOfAny rs

def rowsInTurn : List Rule → List (List Step)
  | [] => [[]]
  | r :: rs => r.rows.flatMap fun row => (rowsInTurn rs).map (row ++ ·)

def rowsOfAny : List Rule → List (List Step)
  | [] => []
  | r :: rs => r.rows ++ rowsOfAny rs

end

end Rule

inductive Rank where
  | member
  | templateCall
  | new
  | call
  | unary
  | power
  | times
  | plus
  | shift
  | relation
  | equality
  | bitAnd
  | bitXor
  | bitOr
  | logicalAnd
  | logicalOr
  | ternary
  | assign
  | declaration
  | literal
  | object
deriving DecidableEq, Repr

/-- What goes on when two readings have equal ranks: a finished phrase on the left, or the phrase on
the right. -/
inductive Side where
  | left
  | right
deriving DecidableEq, Repr

structure Clause where
  rank : Option Rank := none
  side : Option Side := none
  weight : Int := 0
  body : Rule

/-- What a rank can be compared with. -/
inductive Standing where
  | rank (r : Rank)
  | phrase (p : Phrase)
deriving DecidableEq, Repr

end Reanalysis.Script
