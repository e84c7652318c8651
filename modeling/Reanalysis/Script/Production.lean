import Reanalysis.Script.Grammar
import Std.Data.HashMap

/-!
# Productions

The clauses of the grammar as rows of symbols, with what can be said about them once and for all:
the tokens that a phrase may start with, and the phrases that a phrase may start with. Symbols have
numbers, tokens before phrases, and a set of tokens is a number with the bits of its members.
-/

namespace Reanalysis.Script

structure Production where
  phrase : Phrase
  steps : List Step
  rank : Option Rank
  side : Option Side
  weight : Int

def Phrase.productions (p : Phrase) : List Production :=
  (Grammar.clauses p).flatMap fun c =>
    c.body.rows.eraseDups.map fun steps => ⟨p, steps, c.rank, c.side, c.weight⟩

namespace Production

/-- Lists productions of phrases that wait, and then those of the phrases in them. `fuel` bounds the
number of phrases that are looked at. -/
def collect : Nat → List Phrase → List Phrase → List Production → List Production
  | 0, _, _, found => found
  | _ + 1, [], _, found => found
  | fuel + 1, p :: waiting, seen, found =>
    if seen.contains p then collect fuel waiting seen found
    else
      let own := p.productions
      let inner := own.flatMap fun r => r.steps.filterMap fun s =>
        match s.symbol with
        | .phrase q => some q
        | .token _ => none
      collect fuel (inner.eraseDups ++ waiting) (p :: seen) (found ++ own)

def whole : Production := ⟨.program, [⟨.phrase .program, none⟩], none, none, 0⟩

def wholeNumber : Nat := 0

def all : Array Production := (whole :: collect 10000 [.program] [] []).toArray

end Production

/-! ## Numbers of symbols -/

/-- Tokens that no rule mentions come first. -/
def Token.all : Array Token :=
  (Production.all.foldl (fun found r => r.steps.foldl (fun found s =>
      match s.symbol with
      | .token t => if found.contains t then found else found.push t
      | .phrase _ => found) found)
    #[Token.endOfText, Token.comment, Token.pageComment])

def Token.codes : Std.HashMap Token Nat :=
  (Token.all.toList.zipIdx).foldl (fun m (t, i) => m.insert t i) ∅

def Token.code (t : Token) : Nat := Token.codes.getD t Token.all.size

def Token.bit (t : Token) : Nat := Nat.shiftLeft 1 t.code

def tokenCount : Nat := Token.all.size

def Phrase.code (p : Phrase) : Nat := tokenCount + p.ctorIdx

def Symbol.code : Symbol → Nat
  | .token t => t.code
  | .phrase p => p.code

def symbolCount : Nat := Production.all.foldl (fun n r => max n (r.phrase.code + 1)) tokenCount

def isPhrase (x : Nat) : Bool := tokenCount ≤ x

/-! ## First tokens and first phrases -/

def rows : Array (Array Nat) :=
  Production.all.map fun r => (r.steps.map fun s => s.symbol.code).toArray

def row (r : Nat) : Array Nat := rows.getD r #[]

def lefts : Array Nat := Production.all.map fun r => r.phrase.code

def left (r : Nat) : Nat := lefts.getD r symbolCount

/-- Adds to the first tokens of each phrase those of its first symbols. -/
def widenFirsts (firsts : Array Nat) : Array Nat :=
  (Array.range rows.size).foldl (fun firsts r =>
    match (row r)[0]? with
    | some x =>
      firsts.modify (left r) fun set => Nat.lor set (firsts.getD x 0)
    | none => firsts) firsts

def settle (step : Array Nat → Array Nat) : Nat → Array Nat → Array Nat
  | 0, a => a
  | fuel + 1, a =>
    let b := step a
    if a == b then a else settle step fuel b

/-- The tokens that each symbol may start with. -/
def firstTokens : Array Nat :=
  settle widenFirsts symbolCount ((Array.range symbolCount).map fun x =>
    if isPhrase x then 0 else Nat.shiftLeft 1 x)

def first (x : Nat) : Nat := firstTokens.getD x 0

/-- A phrase that another phrase may start with. -/
structure Corner where
  phrase : Nat
  /-- The tokens that may follow it inside of the other phrase. -/
  followers : Nat
  /-- Whether it may also be the whole of the other phrase. -/
  isWhole : Bool

def addCorner (found : List Corner) (r : Nat) : List Corner :=
  match (row r)[0]? with
  | none => found
  | some x =>
    if !isPhrase x then found
    else
      let own : Corner := match (row r)[1]? with
        | some y => ⟨x, first y, false⟩
        | none => ⟨x, 0, true⟩
      match found.find? (·.phrase = x) with
      | none => own :: found
      | some _ => found.map fun c =>
        if c.phrase = x then ⟨x, Nat.lor c.followers own.followers, c.isWhole || own.isWhole⟩
        else c

/-- The phrases that each symbol may start with. -/
def cornerLists : Array (List Corner) :=
  (Array.range rows.size).foldl
    (fun lists r =>
      if r = Production.wholeNumber then lists
      else lists.modify (left r) fun found => addCorner found r)
    (Array.replicate symbolCount [])

def corners (x : Nat) : List Corner := cornerLists.getD x []

/-- The productions that start with each symbol. -/
def openings : Array (List Nat) :=
  (Array.range rows.size).foldr
    (fun r lists =>
      match (row r)[0]? with
      | some x =>
        if r = Production.wholeNumber then lists else lists.modify x fun rs => r :: rs
      | none => lists)
    (Array.replicate symbolCount [])

def opening (x : Nat) : List Nat := openings.getD x []

def emptyProductions : List Nat := (List.range rows.size).filter fun r => (row r).isEmpty

end Reanalysis.Script
