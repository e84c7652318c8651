import Reanalysis.Script.Stack

/-!
# Parsing

All readings of a text are followed side by side. The stacks that are furthest behind read the next
token: what is finished before it is reduced, in every way that is left open, and then the token is
put on top. Readings that come to nothing are dropped; of those that reach the end the heaviest is
taken.
-/

namespace Reanalysis.Script

structure Session where
  automaton : Automaton
  stamp : Nat
  /-- The best reading of the whole text so far. -/
  result : Option Subtree
  /-- The furthest place that a reading has been stuck at. -/
  stuck : Place

abbrev Work := StateM Session

namespace Work

def goto (s : State) (x : Nat) : Work State := fun w =>
  let (next, automaton) := w.automaton.goto s x
  (next, { w with automaton })

def stamped {α : Type} (act : StateM Nat α) : Work α := fun w =>
  let (a, stamp) := act w.stamp
  (a, { w with stamp })

def push (below : Stack) (t : Subtree) (state : State) (place : Place) : Work Stack := fun w =>
  (.mk w.stamp state place [(t, below)], { w with stamp := w.stamp + 1 })

def stuckAt (p : Place) : Work Unit :=
  modify fun w => if w.stuck.offset < p.offset then { w with stuck := p } else w

/-- Puts a stack among others, joined with one that it meets. -/
def insert (s : Stack) : List Stack → Work (List Stack)
  | [] => return [s]
  | other :: rest => do
    if other.meets s then return (← stamped (Stack.join Stack.joinDepth other s)) :: rest
    else return other :: (← insert s rest)

/-- A way to finish a production: the stack below, the node, and the extras behind it. -/
structure Finish where
  below : Stack
  node : Subtree
  extras : List Subtree

def insertFinish (f : Finish) : List Finish → Work (List Finish)
  | [] => return [f]
  | other :: rest => do
    if other.below.meets f.below then
      let below ← stamped (Stack.join Stack.joinDepth other.below f.below)
      if other.node.weight < f.node.weight then return { f with below } :: rest
      else return { other with below } :: rest
    else return other :: (← insertFinish f rest)

/-- Takes the parts of a production off a stack and puts its node in their place. Extras on top of
the stack stay there. -/
def reduce (s : Stack) (r : Nat) : Work (List Stack) := do
  let production := productionAt r
  let mut ways : List Finish := []
  for (below, parts) in s.pop production.steps.length [] do
    let extras := (parts.reverse.takeWhile (·.isExtra)).reverse
    let children := parts.take (parts.length - extras.length)
    ways ← insertFinish ⟨below, .ofProduction production below.place children, extras⟩ ways
  let mut tops : List Stack := []
  for way in ways do
    let state ← goto way.below.state (left r)
    let mut top ← push way.below way.node state s.place
    for extra in way.extras do
      top ← push top extra state s.place
    tops := tops ++ [top]
  return tops

/-- Takes in a reading of the whole text. Extras around the program become parts of it. -/
def finish (s : Stack) : Work Unit := do
  for parts in s.paths [] do
    let before := parts.takeWhile (·.isExtra)
    match parts.drop before.length with
    | .node phrase _ span weight children :: after =>
      let tree := Subtree.node phrase [] span weight (before ++ children ++ after)
      modify fun w => { w with result := some ((w.result.getD tree).heavier tree) }
    | _ => pure ()

/-- Reads a token on a stack, and puts the stacks that come of it among others. `fuel` bounds the
number of productions that are finished before the token. -/
def read : Nat → Lookahead → Stack → List Stack → Work (List Stack)
  | 0, _, _, others => return others
  | fuel + 1, t, s, others => do
    if t.token.isExtra then
      insert (← push s (.ofLookahead t) s.state t.stop) others
    else if t.token = .endOfText && s.state.isFinal then
      finish s
      return others
    else
      let decision := s.state.decide t.token.code
      if decision.reductions.isEmpty && !decision.shifts then
        if t.isKeyword && t.token ≠ .name && s.state.expects .name then
          read fuel { t with token := .name } s others
        else
          stuckAt t.start
          return others
      else
        let mut reduced : List Stack := []
        for r in decision.reductions do
          for top in ← reduce s r do
            reduced ← insert top reduced
        let mut others := others
        for top in reduced do
          others ← read fuel t top others
        if decision.shifts then
          let state ← goto s.state t.token.code
          insert (← push s (.ofLookahead t) state t.stop) others
        else return others

/-- Follows all readings to the end. `fuel` bounds the number of rounds. -/
def run : Nat → Nat → List Stack → Work Unit
  | 0, _, _ => return ()
  | _ + 1, _, [] => return ()
  | rounds + 1, fuel, s :: rest => do
    let tops := s :: rest
    let hindmost := rest.foldl (fun n s => min n s.place.offset) s.place.offset
    let mut others := tops.filter (·.place.offset ≠ hindmost)
    for top in tops.filter (·.place.offset = hindmost) do
      match top.state.lookahead? top.place with
      | some t => others ← read fuel t top others
      | none => stuckAt top.place.skipSpaces
    run rounds fuel others

end Work

/-- The reading of a whole text, or the place where the last reading of it got stuck. Every round
reads a character or a semicolon that has been left out, of which there are at most two at a
place. -/
def readAll (cs : List Char) : Except Place Subtree :=
  let start := Place.start cs
  let bottom := Stack.mk 0 Automaton.start start []
  let (_, w) := Work.run (4 * start.left + 8) (64 * start.left + 64) [bottom]
    ⟨.initial, 1, none, start⟩
  match w.result with
  | some tree => .ok tree
  | none => .error w.stuck

end Reanalysis.Script
