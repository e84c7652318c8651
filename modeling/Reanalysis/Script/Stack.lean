import Reanalysis.Script.Lookahead

/-!
# Stacks that share their ends

Readings of a text that go on side by side are kept on stacks. Stacks that have come to the same
state at the same place are joined into one, with a link to each way of getting there. A stamp tells
whether two stacks are one and the same.
-/

namespace Reanalysis.Script

structure Span where
  start : Nat
  stop : Nat
  row : Nat
deriving DecidableEq, Repr

inductive Subtree where
  | leaf (token : Token) (span : Span) (text : String)
  | node (phrase : Phrase) (fields : List (Option Field)) (span : Span) (weight : Int)
      (children : List Subtree)

namespace Subtree

def span : Subtree → Span
  | .leaf _ span _ => span
  | .node _ _ span _ _ => span

def weight : Subtree → Int
  | .leaf _ _ _ => 0
  | .node _ _ _ weight _ => weight

def isExtra : Subtree → Bool
  | .leaf token _ _ => token.isExtra
  | .node _ _ _ _ _ => false

def ofLookahead (t : Lookahead) : Subtree :=
  .leaf t.token ⟨t.start.offset, t.stop.offset, t.start.row⟩ t.text

/-- The node of a production over its parts; `at'` is the place of a node with no parts. -/
def ofProduction (r : Production) (at' : Place) (children : List Subtree) : Subtree :=
  let here : Span := ⟨at'.offset, at'.offset, at'.row⟩
  let first := (children.head?.map span).getD here
  let last := (children.getLast?.map span).getD here
  .node r.phrase (r.steps.map (·.field)) ⟨first.start, last.stop, first.row⟩
    (children.foldl (fun sum c => sum + c.weight) r.weight) children

/-- Whether two trees are readings of one stretch of text as one symbol. -/
def isLike : Subtree → Subtree → Bool
  | .leaf t s _, .leaf u r _ => t = u && s.start = r.start && s.stop = r.stop
  | .node p _ s _ cs, .node q _ r _ ds =>
    p = q && s.start = r.start && s.stop = r.stop && cs.length = ds.length
  | _, _ => false

def heavier (a b : Subtree) : Subtree := if a.weight < b.weight then b else a

end Subtree

inductive Stack where
  | mk (stamp : Nat) (state : State) (place : Place) (links : List (Subtree × Stack))

namespace Stack

def stamp : Stack → Nat
  | .mk stamp _ _ _ => stamp

def state : Stack → State
  | .mk _ state _ _ => state

def place : Stack → Place
  | .mk _ _ place _ => place

def links : Stack → List (Subtree × Stack)
  | .mk _ _ _ links => links

def meets (a b : Stack) : Bool :=
  a.state.number = b.state.number && a.place.offset = b.place.offset

mutual

/-- The ways to take parts off a stack until `n` of them are no extras. Each gives the stack below
and the parts in their order, followed by `taken`. -/
def pop (n : Nat) (taken : List Subtree) : Stack → List (Stack × List Subtree)
  | .mk stamp state place links =>
    match n with
    | 0 => [(.mk stamp state place links, taken)]
    | n + 1 => popLinks n taken links

def popLinks (n : Nat) (taken : List Subtree) :
    List (Subtree × Stack) → List (Stack × List Subtree)
  | [] => []
  | (t, below) :: rest =>
    below.pop (if t.isExtra then n + 1 else n) (t :: taken) ++ popLinks n taken rest

end

mutual

/-- All rows of parts down to the bottom. -/
def paths (taken : List Subtree) : Stack → List (List Subtree)
  | .mk _ _ _ links => if links.isEmpty then [taken] else pathsOf taken links

def pathsOf (taken : List Subtree) : List (Subtree × Stack) → List (List Subtree)
  | [] => []
  | (t, below) :: rest => below.paths (t :: taken) ++ pathsOf taken rest

end

/-- Puts a link among others. A link over the same stretch, as the same symbol and to a stack that
can be joined, takes it in. -/
def addLink (join : Stack → Stack → StateM Nat Stack) (t : Subtree) (below : Stack) :
    List (Subtree × Stack) → StateM Nat (List (Subtree × Stack))
  | [] => return [(t, below)]
  | (u, other) :: rest => do
    if u.isLike t && other.meets below then return (u.heavier t, ← join other below) :: rest
    else return (u, other) :: (← addLink join t below rest)

/-- Joins two stacks that meet. Stamps are drawn from a counter; `fuel` bounds how far down links are
compared. -/
def join : Nat → Stack → Stack → StateM Nat Stack
  | 0, a, _ => return a
  | fuel + 1, a, b => do
    if a.stamp = b.stamp then return a
    let mut links := a.links
    for (t, below) in b.links do
      links ← addLink (join fuel) t below links
    let stamp ← modifyGet fun n => (n, n + 1)
    return .mk stamp a.state a.place links

def joinDepth : Nat := 100000

end Stack

end Reanalysis.Script
