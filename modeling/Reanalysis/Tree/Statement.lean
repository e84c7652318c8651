import Reanalysis.Tree.Path

/-!
# Statement trees

A program as its list of statements, in which conditionals are split into their test and their
arms. Every statement carries its text and the line it starts on.
-/

namespace Reanalysis

inductive Statement where
  | simple (line : Nat) (text : String)
  /-- `elseArm` is `none` when there is no alternative. -/
  | conditional (line : Nat) (text : String) (test : String) (thenArm : List Statement)
      (elseArm : Option (List Statement))
deriving Repr, Inhabited

abbrev Tree := List Statement

namespace Statement

def line : Statement → Nat
  | .simple line _ => line
  | .conditional line _ _ _ _ => line

def text : Statement → String
  | .simple _ text => text
  | .conditional _ text _ _ _ => text

def test? : Statement → Option String
  | .simple _ _ => none
  | .conditional _ _ test _ _ => some test

/-- What statements of two versions are matched by: conditionals by their test alone, so that
changes inside an arm leave them matched. -/
def key : Statement → String
  | .simple _ text => text
  | .conditional _ _ test _ _ => test

end Statement

mutual

def Statement.conditionalCount : Statement → Nat
  | .simple _ _ => 0
  | .conditional _ _ _ thenArm elseArm =>
    1 + Tree.conditionalCount thenArm + Tree.armConditionalCount elseArm

def Tree.conditionalCount : List Statement → Nat
  | [] => 0
  | s :: rest => s.conditionalCount + Tree.conditionalCount rest

def Tree.armConditionalCount : Option (List Statement) → Nat
  | none => 0
  | some arm => Tree.conditionalCount arm

end

/-- A conditional of a program. Explored state is kept by such sites. -/
structure Site where
  path : Path
  test : String
  line : Nat
deriving DecidableEq, Repr

mutual

def Statement.sites (path : Path) : Statement → List Site
  | .simple _ _ => []
  | .conditional line _ test thenArm elseArm =>
    ⟨path, test, line⟩ :: (Tree.sitesFrom (path.child .thenArm) 0 thenArm ++
      Tree.armSites (path.child .elseArm) elseArm)

/-- The conditionals of the statements from index `i` on of the list at `path`. -/
def Tree.sitesFrom (path : Path) (i : Nat) : List Statement → List Site
  | [] => []
  | s :: rest => s.sites (path.child (.index i)) ++ Tree.sitesFrom path (i + 1) rest

def Tree.armSites (path : Path) : Option (List Statement) → List Site
  | none => []
  | some arm => Tree.sitesFrom path 0 arm

end

def Tree.sites (t : Tree) : List Site := Tree.sitesFrom [] 0 t

namespace Site

def toJson (s : Site) : Json.Value :=
  .object [("path", s.path.toJson), ("test", .text s.test), ("line", .nat s.line)]

structure Draft where
  path : Option Path := none
  test : Option String := none
  line : Option Nat := none

def fields : List (Json.Member Draft) :=
  [.required "path" Draft.path (fun d x => { d with path := some x }) Path.reader,
   .required "test" Draft.test (fun d x => { d with test := some x }) Json.string,
   .required "line" Draft.line (fun d x => { d with line := some x }) Json.nat64]

def reader : Json.Reader Site :=
  Json.record fields {} fun d => do return ⟨← d.path, ← d.test, ← d.line⟩

end Site

end Reanalysis
