import Reanalysis.Record.Error

/-!
# Static metrics

The structural properties that the generator of a program writes down about it. The number of
branches and three averages are always there; the other counts are carried along when present.
-/

namespace Reanalysis

structure Metrics where
  branches : Nat
  depth : Float
  branchLength : Float
  conditionalsPerBranch : Float
  symbolicVariables : Option Nat
  conditionals : Option Nat
  maxBranchLength : Option Nat
  maxConditionalsPerBranch : Option Nat
  maxDepth : Option Nat

namespace Metrics

def basic (branches : Nat) (depth branchLength conditionalsPerBranch : Float) : Metrics :=
  ⟨branches, depth, branchLength, conditionalsPerBranch, none, none, none, none, none⟩

def averages (m : Metrics) : List (String × Float) :=
  [("AVE_AST_DEPTH", m.depth), ("AVE_BRANCH_LENGTH", m.branchLength),
   ("AVE_CONDITIONALS_PER_BRANCH", m.conditionalsPerBranch)]

/-- The first average that is negative or not finite. -/
def firstBad? (m : Metrics) : Option (String × Float) :=
  m.averages.find? fun (_, x) => !x.isFinite || x < 0.0

def validate (m : Metrics) : Except RecordError Unit :=
  match m.firstBad? with
  | some (key, x) => .error (.badAverage key x)
  | none => .ok ()

/-- The share of the branches that `reached` is; zero for a program without branches. -/
def coverage (m : Metrics) (reached : Nat) : Float :=
  if m.branches = 0 then 0.0 else Json.floatOfNat reached / Json.floatOfNat m.branches

def toJson (m : Metrics) : Json.Value :=
  .object <| Json.present
    [("NUM_BRANCHES", some (.nat m.branches)),
     ("AVE_AST_DEPTH", some (.float m.depth)),
     ("AVE_BRANCH_LENGTH", some (.float m.branchLength)),
     ("AVE_CONDITIONALS_PER_BRANCH", some (.float m.conditionalsPerBranch)),
     ("NUM_SYMBOLIC_VARS", m.symbolicVariables.map .nat),
     ("NUM_CONDITIONALS", m.conditionals.map .nat),
     ("MAX_BRANCH_LENGTH", m.maxBranchLength.map .nat),
     ("MAX_CONDITIONALS_PER_BRANCH", m.maxConditionalsPerBranch.map .nat),
     ("MAX_AST_DEPTH", m.maxDepth.map .nat)]

structure Draft where
  branches : Option Nat := none
  depth : Option Float := none
  branchLength : Option Float := none
  conditionalsPerBranch : Option Float := none
  symbolicVariables : Option (Option Nat) := none
  conditionals : Option (Option Nat) := none
  maxBranchLength : Option (Option Nat) := none
  maxConditionalsPerBranch : Option (Option Nat) := none
  maxDepth : Option (Option Nat) := none

def fields : List (Json.Member Draft) :=
  [.required "NUM_BRANCHES" Draft.branches (fun d x => { d with branches := some x }) Json.nat64,
   .required "AVE_AST_DEPTH" Draft.depth (fun d x => { d with depth := some x }) Json.float,
   .required "AVE_BRANCH_LENGTH" Draft.branchLength
     (fun d x => { d with branchLength := some x }) Json.float,
   .required "AVE_CONDITIONALS_PER_BRANCH" Draft.conditionalsPerBranch
     (fun d x => { d with conditionalsPerBranch := some x }) Json.float,
   .optional "NUM_SYMBOLIC_VARS" Draft.symbolicVariables
     (fun d x => { d with symbolicVariables := some x }) Json.nat64,
   .optional "NUM_CONDITIONALS" Draft.conditionals
     (fun d x => { d with conditionals := some x }) Json.nat64,
   .optional "MAX_BRANCH_LENGTH" Draft.maxBranchLength
     (fun d x => { d with maxBranchLength := some x }) Json.nat64,
   .optional "MAX_CONDITIONALS_PER_BRANCH" Draft.maxConditionalsPerBranch
     (fun d x => { d with maxConditionalsPerBranch := some x }) Json.nat64,
   .optional "MAX_AST_DEPTH" Draft.maxDepth (fun d x => { d with maxDepth := some x }) Json.nat64]

def reader : Json.Reader Metrics :=
  Json.record fields {} fun d => do
    return ⟨← d.branches, ← d.depth, ← d.branchLength, ← d.conditionalsPerBranch,
      d.symbolicVariables.join, d.conditionals.join, d.maxBranchLength.join,
      d.maxConditionalsPerBranch.join, d.maxDepth.join⟩

/-- The metrics on the first line of a stats file that is not blank. -/
def ofStats (text : String) : Except RecordError Metrics := do
  match (Text.lines text).map Text.trim |>.find? (!·.isEmpty) with
  | none => throw .emptyStats
  | some line =>
    let m ← RecordError.ofJson (Json.read reader line)
    m.validate
    return m

end Metrics

end Reanalysis
