import Reanalysis.Diff.Alignment
import Reanalysis.Tree.Statement

/-!
# Changes between two versions of a program

Lists of statements are aligned by their keys. Matched conditionals are compared arm by arm. Between
two matches the deleted and the inserted statements are paired off as alterations, and what is left
over is removed or added.
-/

namespace Reanalysis

inductive ChangeKind where
  | added
  | removed
  | altered
deriving DecidableEq, Repr

namespace ChangeKind

def name : ChangeKind → String
  | .added => "added"
  | .removed => "removed"
  | .altered => "altered"

def ofName? (s : String) : Option ChangeKind :=
  [ChangeKind.added, .removed, .altered].find? (·.name = s)

end ChangeKind

structure Change where
  kind : ChangeKind
  /-- The place in the base program; for an addition, the place it is inserted at. -/
  path : Path
  modifiedPath : Option Path
  baseLine : Option Nat
  modifiedLine : Option Nat
  baseText : Option String
  modifiedText : Option String
  /-- The innermost conditional around the change. -/
  anchor : Option Site
deriving DecidableEq, Repr

namespace Change

def toJson (c : Change) : Json.Value :=
  .object <| Json.present
    [("kind", some (.text c.kind.name)),
     ("path", some c.path.toJson),
     ("modified_path", c.modifiedPath.map Path.toJson),
     ("base_line", c.baseLine.map .nat),
     ("modified_line", c.modifiedLine.map .nat),
     ("base_text", c.baseText.map .text),
     ("modified_text", c.modifiedText.map .text),
     ("anchor", c.anchor.map Site.toJson)]

structure Draft where
  kind : Option ChangeKind := none
  path : Option Path := none
  modifiedPath : Option (Option Path) := none
  baseLine : Option (Option Nat) := none
  modifiedLine : Option (Option Nat) := none
  baseText : Option (Option String) := none
  modifiedText : Option (Option String) := none
  anchor : Option (Option Site) := none

def fields : List (Json.Member Draft) :=
  [.required "kind" Draft.kind (fun d x => { d with kind := some x })
     (Json.named ChangeKind.ofName?),
   .required "path" Draft.path (fun d x => { d with path := some x }) Path.reader,
   .optional "modified_path" Draft.modifiedPath (fun d x => { d with modifiedPath := some x })
     Path.reader,
   .optional "base_line" Draft.baseLine (fun d x => { d with baseLine := some x }) Json.nat64,
   .optional "modified_line" Draft.modifiedLine (fun d x => { d with modifiedLine := some x })
     Json.nat64,
   .optional "base_text" Draft.baseText (fun d x => { d with baseText := some x }) Json.string,
   .optional "modified_text" Draft.modifiedText (fun d x => { d with modifiedText := some x })
     Json.string,
   .optional "anchor" Draft.anchor (fun d x => { d with anchor := some x }) Site.reader]

def reader : Json.Reader Change :=
  Json.record fields {} fun d => do
    return ⟨← d.kind, ← d.path, d.modifiedPath.join, d.baseLine.join, d.modifiedLine.join,
      d.baseText.join, d.modifiedText.join, d.anchor.join⟩

end Change

namespace Diff

/-- Where a list of statements lies in the two versions, and the conditional it is an arm of. -/
structure Place where
  base : Path
  modified : Path
  anchor : Option Site

abbrev Indexed := Statement × Nat

def Place.altered (here : Place) (b m : Indexed) : Change :=
  ⟨.altered, here.base.child (.index b.2), some (here.modified.child (.index m.2)), some b.1.line,
    some m.1.line, some b.1.text, some m.1.text, here.anchor⟩

def Place.removed (here : Place) (b : Indexed) : Change :=
  ⟨.removed, here.base.child (.index b.2), none, some b.1.line, none, some b.1.text, none,
    here.anchor⟩

def Place.added (here : Place) (index : Nat) (m : Indexed) : Change :=
  ⟨.added, here.base.child (.index index), some (here.modified.child (.index m.2)), none,
    some m.1.line, none, some m.1.text, here.anchor⟩

/-- The changes between two matches, or behind the last one; `index` is the index in the base list
of what follows. -/
def Place.gap (here : Place) (index : Nat) : List Indexed → List Indexed → List Change
  | [], ms => ms.map (here.added index)
  | bs, [] => bs.map here.removed
  | b :: bs, m :: ms => here.altered b m :: here.gap index bs ms

/-- The changes inside a statement, given the statement it is matched with and the paths of both. -/
abbrev Inner := Statement → Path → Path → List Change

/-- The changes of an edit script. `deleted` and `inserted` are the open gap, and `size` is the
number of statements in the base list. -/
def Place.collect (here : Place) (size : Nat) : List (Edit ((Statement × Inner) × Nat) Indexed) →
    List Indexed → List Indexed → List Change
  | [], deleted, inserted => here.gap size deleted inserted
  | .delete ((s, _), i) :: rest, deleted, inserted =>
    here.collect size rest (deleted ++ [(s, i)]) inserted
  | .insert m :: rest, deleted, inserted => here.collect size rest deleted (inserted ++ [m])
  | .keep ((_, inner), i) (m, j) :: rest, deleted, inserted =>
    here.gap i deleted inserted ++
      inner m (here.base.child (.index i)) (here.modified.child (.index j)) ++
      here.collect size rest [] []

def Place.compare (here : Place) (bs : List (Statement × Inner)) (ms : List Statement) :
    List Change :=
  here.collect bs.length
    (align (fun b m => b.1.1.key = m.1.key) bs.zipIdx ms.zipIdx) [] []

end Diff

mutual

/-- The changes between two statements with one key. Simple ones are equal then. -/
def Statement.changes : Statement → Statement → Path → Path → List Change
  | .conditional line _ test baseThen baseElse, other, p, q =>
    match other with
    | .conditional _ _ _ modifiedThen modifiedElse =>
      let anchor := some ⟨p, test, line⟩
      Diff.Place.compare ⟨p.child .thenArm, q.child .thenArm, anchor⟩
          (Diff.comparable baseThen) modifiedThen ++
        Diff.Place.compare ⟨p.child .elseArm, q.child .elseArm, anchor⟩
          (Diff.comparableArm baseElse) (modifiedElse.getD [])
    | .simple _ _ => []
  | .simple _ _, _, _, _ => []

/-- Each statement together with the changes inside it. -/
def Diff.comparable : List Statement → List (Statement × Diff.Inner)
  | [] => []
  | s :: rest => (s, fun m p q => s.changes m p q) :: Diff.comparable rest

def Diff.comparableArm : Option (List Statement) → List (Statement × Diff.Inner)
  | none => []
  | some arm => Diff.comparable arm

end

/-- The changes from one program to another, in the order of the base program. -/
def Diff.changes (base modified : Tree) : List Change :=
  Diff.Place.compare ⟨[], [], none⟩ (Diff.comparable base) modified

end Reanalysis
