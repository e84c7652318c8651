import Reanalysis.Script.Production

/-!
# The automaton of the grammar

A state says how far which productions may have got at some place of a text, each with the tokens
that may follow it there. Its kernel holds the productions that are under way; the phrases that may
start in the state are kept beside it. States are made when they are first reached.
-/

namespace Reanalysis.Script

/-- A production of which the first `dot` symbols have been read, and the tokens that may follow the
whole of it. -/
structure Entry where
  production : Nat
  dot : Nat
  followers : Nat
deriving DecidableEq, Hashable, Repr

namespace Entry

def next? (e : Entry) : Option Nat := (row e.production)[e.dot]?

/-- The tokens that may follow the next symbol. -/
def afterNext (e : Entry) : Nat :=
  match (row e.production)[e.dot + 1]? with
  | some x => first x
  | none => e.followers

/-- The tokens with which the entry goes on. -/
def expected (e : Entry) : Nat :=
  match e.next? with
  | some x => first x
  | none => e.followers

def phrase (e : Entry) : Option Phrase := Production.all[e.production]?.map (·.phrase)

end Entry

/-! ## Phrases that may start in a state -/

/-- Adds tokens to those that may follow a phrase. A phrase that gains some has to be looked at. -/
def allow (x more : Nat) (known : List Nat × Array Nat) : List Nat × Array Nat :=
  let old := known.2.getD x 0
  let new := Nat.lor old more
  if new = old then known else (x :: known.1, known.2.setIfInBounds x new)

/-- Goes on from a phrase that may start to the phrases that it may start with. -/
def follow (x : Nat) (known : List Nat × Array Nat) : List Nat × Array Nat :=
  let own := known.2.getD x 0
  (corners x).foldl
    (fun known c => allow c.phrase (if c.isWhole then Nat.lor c.followers own else c.followers) known)
    known

/-- Goes on from all phrases that wait. `fuel` bounds the number of times that a phrase is looked at. -/
def spread : Nat → List Nat × Array Nat → Array Nat
  | 0, known => known.2
  | fuel + 1, known =>
    match known.1 with
    | [] => known.2
    | x :: waiting => spread fuel (follow x (waiting, known.2))

/-- Starts with the phrase that comes next in an entry. -/
def Entry.start (known : List Nat × Array Nat) (e : Entry) : List Nat × Array Nat :=
  match e.next? with
  | some x => if isPhrase x then allow x e.afterNext known else known
  | none => known

/-- For each symbol the tokens that may follow it as a phrase that starts here. -/
def headsOf (kernel : List Entry) : Array Nat :=
  spread (symbolCount * symbolCount) (kernel.foldl Entry.start ([], Array.replicate symbolCount 0))

/-! ## States -/

structure State where
  number : Nat
  kernel : List Entry
  /-- For each symbol the tokens that may follow it as a phrase that starts here. -/
  heads : Array Nat
  /-- The tokens that may come next. -/
  expected : Nat
  /-- The tokens to look for, words apart from names. -/
  sought : List Token
deriving Inhabited

def keywords : Nat :=
  Token.all.foldl (fun set t => if t.isKeyword then Nat.lor set t.bit else set) 0

def hasToken (set : Nat) (t : Token) : Bool := set.testBit t.code

/-- Whether a class body or a block has just been closed where its statement may end. Words are read
whole there, so that an operator that reads like a word does not end inside of one. -/
def endsBody (kernel : List Entry) : Bool :=
  kernel.all (fun e => e.phrase = some .classBody || e.phrase = some .block) &&
    kernel.any fun e => e.next?.isNone && hasToken e.followers .omittedSemicolon

/-- Keywords are looked for as names. -/
def soughtTokens (kernel : List Entry) (expected : Nat) : List Token :=
  let words := Nat.land expected (Nat.lor keywords Token.name.bit) ≠ 0 || endsBody kernel
  Token.all.toList.filter fun t =>
    if t = .name then words else hasToken expected t && !t.isKeyword

namespace State

def ofKernel (number : Nat) (kernel : List Entry) : State :=
  let heads := headsOf kernel
  let direct := kernel.foldl (fun set e => Nat.lor set e.expected) 0
  let empty := emptyProductions.foldl (fun set r => Nat.lor set (heads.getD (left r) 0)) 0
  let expected := Nat.lor (Nat.lor direct empty) (Nat.lor Token.comment.bit Token.pageComment.bit)
  ⟨number, kernel, heads, expected, soughtTokens kernel expected⟩

def expects (s : State) (t : Token) : Bool := hasToken s.expected t

/-- What is under way when a symbol has been read. -/
def successor (s : State) (x : Nat) : List Entry :=
  (s.kernel.filter (·.next? = some x)).map (fun e => { e with dot := e.dot + 1 }) ++
  (opening x).filterMap fun r =>
    let followers := s.heads.getD (left r) 0
    if followers = 0 then none else some ⟨r, 1, followers⟩

def hasSuccessor (s : State) (x : Nat) : Bool :=
  s.kernel.any (·.next? = some x) || (opening x).any fun r => s.heads.getD (left r) 0 ≠ 0

end State

/-! ## Comparing readings -/

/-- The rank of a reading and the phrases that it is a reading of. -/
structure Reading where
  rank : Option Rank
  phrases : List Phrase

def Reading.matches (r : Reading) : Standing → Bool
  | .rank k => r.rank = some k
  | .phrase p => r.phrases.contains p

/-- Which of two readings comes first in a list that has both. -/
def firstOf (a b : Reading) : Bool → Bool → List Standing → Ordering
  | _, _, [] => .eq
  | sawA, sawB, s :: rest =>
    if a.matches s then (if sawB then .lt else firstOf a b true sawB rest)
    else if b.matches s then (if sawA then .gt else firstOf a b sawA true rest)
    else firstOf a b sawA sawB rest

/-- Compares two readings by the first list that has both. -/
def Reading.compare (a b : Reading) : Ordering :=
  (Grammar.orders.map (firstOf a b false false)).find? (· ≠ .eq) |>.getD .eq

def readingOf (rs : List Production) : Reading :=
  ⟨(rs.getLast?.bind (·.rank)), rs.map (·.phrase)⟩

/-! ## Decisions -/

/-- What may be done when a token comes next. -/
structure Decision where
  reductions : List Nat
  shifts : Bool

def productionAt (r : Nat) : Production := Production.all.getD r .whole

/-- Keeps the finished productions of the highest standing. -/
def foremost (rs : List Nat) : List Nat :=
  rs.foldl (fun best r =>
    if best.isEmpty then [r]
    else
      match (readingOf [productionAt r]).compare (readingOf (best.map productionAt)) with
      | .gt => [r]
      | .eq => best ++ [r]
      | .lt => best) []

/-- Decides between finishing productions and reading a token, given the productions that go on with
the token. A repetition is always finished. -/
def settleConflict (finished best going : List Nat) : Decision :=
  let phrases := (finished ++ going).map fun r => (productionAt r).phrase
  match phrases with
  | [] => ⟨best, true⟩
  | p :: _ =>
    if p.isRepetition && phrases.all (· = p) then ⟨best, false⟩
    else
      let rest := readingOf (best.map productionAt)
      let order := going.map fun r => (readingOf [productionAt r]).compare rest
      let sides := best.map fun r => (productionAt r).side
      if order.contains .gt && !order.contains .lt then ⟨[], true⟩
      else if order.contains .lt && !order.contains .gt then ⟨best, false⟩
      else if order.contains .lt then ⟨best, true⟩
      else if sides.all (· = some .left) then ⟨best, false⟩
      else if sides.all (· = some .right) then ⟨[], true⟩
      else ⟨best, true⟩

namespace State

/-- The productions that are finished when a token comes next. -/
def finished (s : State) (t : Nat) : List Nat :=
  (s.kernel.filterMap fun e =>
    if e.next?.isNone && e.production ≠ Production.wholeNumber && e.followers.testBit t
    then some e.production else none) ++
  emptyProductions.filter fun r => (s.heads.getD (left r) 0).testBit t

def decide (s : State) (t : Nat) : Decision :=
  let finished := s.finished t
  let best := foremost finished
  if !s.hasSuccessor t then ⟨best, false⟩
  else if best.isEmpty then ⟨[], true⟩
  else
    let going := s.kernel.filterMap fun e =>
      match e.next? with
      | some x =>
        if (first x).testBit t && e.production ≠ Production.wholeNumber then some e.production
        else none
      | none => none
    settleConflict finished best going

def isFinal (s : State) : Bool :=
  s.kernel.any fun e => e.production = Production.wholeNumber && e.next?.isNone

end State

/-! ## States by need -/

structure Automaton where
  states : Std.HashMap (List Entry) State
  edges : Std.HashMap (Nat × Nat) State

namespace Automaton

def start : State := .ofKernel 0 [⟨Production.wholeNumber, 0, Token.endOfText.bit⟩]

def initial : Automaton := ⟨({} : Std.HashMap _ _).insert start.kernel start, ∅⟩

/-- The state after a symbol, which is remembered. -/
def goto (a : Automaton) (s : State) (x : Nat) : State × Automaton :=
  match a.edges[(s.number, x)]? with
  | some next => (next, a)
  | none =>
    let kernel := s.successor x
    match a.states[kernel]? with
    | some next => (next, { a with edges := a.edges.insert (s.number, x) next })
    | none =>
      let next := State.ofKernel a.states.size kernel
      (next, ⟨a.states.insert kernel next, a.edges.insert (s.number, x) next⟩)

end Automaton

end Reanalysis.Script
