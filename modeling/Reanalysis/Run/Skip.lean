import Reanalysis.Program.Id

/-!
# Skipped steps

Why a program was passed over without running an engine. A skip is stored under two members, the
reason and its detail, in either order; when the detail comes first its value is kept until the
reason is known.
-/

namespace Reanalysis

inductive Skip where
  | missingSource (path : String)
  | diffFailed (message : String)
deriving DecidableEq, Repr

namespace Skip

def message : Skip → String
  | .missingSource path => s!"missing {path}"
  | .diffFailed text => s!"diff failed: {text}"

inductive Reason where
  | missingSource
  | diffFailed

def Reason.ofName? (s : String) : Option Reason :=
  if s = "missing_source" then some .missingSource
  else if s = "diff_failed" then some .diffFailed
  else none

def Reason.withDetail : Reason → String → Skip
  | .missingSource => .missingSource
  | .diffFailed => .diffFailed

def toJson : Skip → Json.Value
  | .missingSource path => .object [("reason", .text "missing_source"), ("detail", .text path)]
  | .diffFailed text => .object [("reason", .text "diff_failed"), ("detail", .text text)]

/-- The members read so far. The first value is a detail that came before its reason. -/
structure Draft where
  reason : Option Reason := none
  detail : Option String := none
  early : Option Json.Value := none

def Draft.member (name : String) (d : Draft) : Json.Reader Draft := do
  if name = "reason" then
    if d.reason.isSome then throw .mistyped
    Json.colon
    let reason ← Json.named Reason.ofName?
    match d.early with
    | none => return { d with reason := some reason }
    | some (.text s) => return { d with reason := some reason, detail := some s, early := none }
    | some _ => throw .mistyped
  else if name = "detail" then
    if d.detail.isSome || d.early.isSome then throw .mistyped
    Json.colon
    if d.reason.isSome then return { d with detail := some (← Json.string) }
    else return { d with early := some (← Json.value (Json.depthLimit - 2)) }
  else Json.passOver name d

def reader : Json.Reader Skip := do
  let c ← Json.lookValue
  if c = '\x7b' then
    Json.advance
    let d ← Json.members Draft.member {}
    match d.reason, d.detail with
    | some reason, some detail => return reason.withDetail detail
    | _, _ => throw .mistyped
  else if c = '[' then
    Json.advance
    if !(← Json.nextElement true) then throw .mistyped
    let reason ← Json.refined Json.string Reason.ofName?
    if !(← Json.nextElement false) then throw .mistyped
    let detail ← Json.string
    match ← Json.look with
    | some ']' => Json.advance; return reason.withDetail detail
    | some _ => throw .malformed
    | none => throw .truncated
  else Json.mismatch c

structure Entry where
  program : ProgramId
  workflow : String
  skip : Skip
deriving DecidableEq

namespace Entry

def toJson (e : Entry) : Json.Value :=
  .object [("program_id", e.program.toJson), ("workflow", .text e.workflow),
    ("skip", e.skip.toJson)]

structure Draft where
  program : Option ProgramId := none
  workflow : Option String := none
  skip : Option Skip := none

def fields : List (Json.Member Draft) :=
  [.required "program_id" Draft.program (fun d x => { d with program := some x }) ProgramId.reader,
   .required "workflow" Draft.workflow (fun d x => { d with workflow := some x }) Json.string,
   .required "skip" Draft.skip (fun d x => { d with skip := some x }) Skip.reader]

def reader : Json.Reader Entry :=
  Json.record fields {} fun d => do return ⟨← d.program, ← d.workflow, ← d.skip⟩

end Entry

end Skip

end Reanalysis
