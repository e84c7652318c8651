import Reanalysis.Diff.Change

/-!
# Reuse of explored state

State is kept by conditional. The state of a conditional can be reused unless some change runs
before it, stands in its place or encloses it.
-/

namespace Reanalysis

structure Plan where
  invalidated : List Site
  reusable : List Site
  /-- The conditional around the first change; with none, the program is run from its start. -/
  resumeFrom : Option Site
deriving DecidableEq, Repr

namespace Plan

def affects (change : Path) (site : Path) : Bool :=
  match change.precedence site with
  | .before | .same | .encloses => true
  | .after | .inside | .exclusive => false

def isHit (changes : List Change) (site : Site) : Bool :=
  changes.any fun c => affects c.path site.path

/-- The first of the changes with the least path. -/
def earliest? : List Change → Option Change
  | [] => none
  | c :: rest =>
    match earliest? rest with
    | none => some c
    | some d => some (if c.path.le d.path then c else d)

def compute (base : Tree) (changes : List Change) : Plan where
  invalidated := base.sites.filter (isHit changes)
  reusable := base.sites.filter (!isHit changes ·)
  resumeFrom := (earliest? changes).bind Change.anchor

/-- The members of a plan, to be written among those of the record it belongs to. -/
def members (p : Plan) : List (String × Option Json.Value) :=
  [("invalidated", some (.list (p.invalidated.map Site.toJson))),
   ("reusable", some (.list (p.reusable.map Site.toJson))),
   ("resume_from", p.resumeFrom.map Site.toJson)]

def toJson (p : Plan) : Json.Value := .object (Json.present p.members)

end Plan

end Reanalysis
