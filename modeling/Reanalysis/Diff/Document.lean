import Reanalysis.Diff.Plan
import Reanalysis.Digest.Basic
import Reanalysis.Program.Id

/-!
# Diff documents

A document is a header on a line of its own and then one line for each change. The header names the
program, the digests of both versions and the number of changes, and holds the plan among its own
members.
-/

namespace Reanalysis.Diff

structure Header where
  program : ProgramId
  baseDigest : Digest
  modifiedDigest : Digest
  changeCount : Nat
  plan : Plan
deriving DecidableEq

namespace Header

def toJson (h : Header) : Json.Value :=
  .object <| Json.present <|
    [("program_id", some h.program.toJson),
     ("base_digest", some h.baseDigest.toJson),
     ("modified_digest", some h.modifiedDigest.toJson),
     ("change_count", some (.nat h.changeCount))] ++ h.plan.members

/-- The members read so far; `others` holds those that may belong to the plan, as text. -/
structure Draft where
  program : Option ProgramId := none
  baseDigest : Option Digest := none
  modifiedDigest : Option Digest := none
  changeCount : Option Nat := none
  others : List (String × List Char) := []

def fields : List (Json.Member Draft) :=
  [.required "program_id" Draft.program (fun d x => { d with program := some x }) ProgramId.reader,
   .required "base_digest" Draft.baseDigest (fun d x => { d with baseDigest := some x })
     Digest.reader,
   .required "modified_digest" Draft.modifiedDigest (fun d x => { d with modifiedDigest := some x })
     Digest.reader,
   .required "change_count" Draft.changeCount (fun d x => { d with changeCount := some x })
     Json.nat64]

/-- A member that is not one of the header's own is kept. -/
def keep (name : String) (d : Draft) : Json.Reader Draft := do
  Json.colon
  let text ← Json.captured (Json.value (Json.depthLimit - 1))
  return { d with others := d.others ++ [(name, text)] }

structure PlanDraft where
  invalidated : Option (List Site) := none
  reusable : Option (List Site) := none
  resumeFrom : Option (Option Site) := none

def planFields : List (Json.Member PlanDraft) :=
  [.required "invalidated" PlanDraft.invalidated (fun d x => { d with invalidated := some x })
     (Json.listOf Site.reader),
   .required "reusable" PlanDraft.reusable (fun d x => { d with reusable := some x })
     (Json.listOf Site.reader),
   .optional "resume_from" PlanDraft.resumeFrom (fun d x => { d with resumeFrom := some x })
     Site.reader]

/-- Reads the plan off the members that were kept. -/
def planFrom (d : PlanDraft) : List (String × List Char) → Option PlanDraft
  | [] => some d
  | (name, text) :: rest =>
    match planFields.find? (·.name = name) with
    | none => planFrom d rest
    | some m =>
      if m.taken d then none
      else match Json.readWhole (m.read d) text with
        | .ok d => planFrom d rest
        | .error _ => none

def make? (d : Draft) : Option Header := do
  let program ← d.program
  let baseDigest ← d.baseDigest
  let modifiedDigest ← d.modifiedDigest
  let changeCount ← d.changeCount
  let plan ← planFrom {} d.others
  return ⟨program, baseDigest, modifiedDigest, changeCount,
    ← plan.invalidated, ← plan.reusable, plan.resumeFrom.join⟩

def reader : Json.Reader Header := do
  let c ← Json.lookValue
  if c = '\x7b' then
    Json.advance
    match make? (← Json.members (Json.memberOf fields keep) {}) with
    | some h => return h
    | none => throw .mistyped
  else if c = '[' then throw .mistyped
  else Json.mismatch c

end Header

structure Document where
  header : Header
  changes : List Change
deriving DecidableEq

inductive DocumentError where
  | json (fault : Json.Fault)
  | noHeader
  | wrongCount (announced found : Nat)
deriving DecidableEq, Repr

def DocumentError.message : DocumentError → String
  | .json _ => "diff encoding error"
  | .noHeader => "malformed diff document: missing header line"
  | .wrongCount announced found =>
    s!"malformed diff document: header announces {announced} entries, found {found}"

namespace Document

def lines (d : Document) : List String :=
  d.header.toJson.render :: d.changes.map (·.toJson.render)

def render (d : Document) : String := String.join (d.lines.map (· ++ "\n"))

def readLine {α : Type} (r : Json.Reader α) (line : String) : Except DocumentError α :=
  match Json.read r line with
  | .ok a => .ok a
  | .error e => .error (.json e)

def parse (text : String) : Except DocumentError Document :=
  match (Text.lines text).filter (!Text.isBlankText ·) with
  | [] => .error .noHeader
  | first :: rest => do
    let header ← readLine Header.reader first
    let changes ← rest.mapM (readLine Change.reader)
    if changes.length ≠ header.changeCount then
      throw (.wrongCount header.changeCount changes.length)
    return ⟨header, changes⟩

/-- The document for the changes between two programs, given with the texts they were read from. -/
def ofTrees (program : ProgramId) (baseText modifiedText : String) (base modified : Tree) :
    Document :=
  let changes := Diff.changes base modified
  ⟨⟨program, .ofText baseText, .ofText modifiedText, changes.length, .compute base changes⟩,
    changes⟩

end Document

end Reanalysis.Diff
