import Reanalysis.CommandLine.Options
import Reanalysis.Harness.Workflow

/-!
# Requests

The commands with their options, and what a command line asks for.
-/

namespace Reanalysis

open Files (Location)

inductive ReportKind where
  | timing
  | targeted
  | coverage
deriving DecidableEq, Repr

namespace ReportKind

def all : List ReportKind := [.timing, .targeted, .coverage]

def name : ReportKind → String
  | .timing => "timing"
  | .targeted => "targeted"
  | .coverage => "coverage"

def ofName? (s : String) : Option ReportKind := all.find? (·.name = s)

end ReportKind

namespace CommandLine

inductive Request where
  | workflow (workflow : Workflow) (programs jobs : Option Nat)
  | diff (base modified result : Location) (id : Option Nat)
  | calibrate
  | report (kind : ReportKind) (out : Option Location) (log : Option String)
deriving DecidableEq, Repr

/-! ## Values -/

def int? (s : String) : Option Int :=
  let (sign, run) : Int × List Char := match s.toList with
    | '-' :: cs => (-1, cs)
    | '+' :: cs => (1, cs)
    | cs => (1, cs)
  if run.isEmpty || !run.all Char.isDigit then none else some (sign * (Text.natOfDigits run : Int))

def word? (s : String) : Option Nat := do
  let n ← int? s
  if 0 ≤ n && n < 0x100000000 then some n.toNat else none

/-- A number below `2 ^ 64`, which is not written with a minus. -/
def count? (s : String) : Option Nat := do
  let n ← int? s
  if !s.startsWith "-" && n < 0x10000000000000000 then some n.toNat else none

def isPath (s : String) : Bool := s ≠ ""

/-! ## Commands -/

structure Command where
  name : String
  about : String
  choices : List Choice

def globals : List Choice :=
  [ { name := "config", takes := .value isPath,
      help := "Config file (default: ./tabench.toml if present)" },
    { name := "json-logs", takes := .nothing, help := "Emit logs as JSON lines" } ]

def workflowChoices : List Choice :=
  [ { name := "programs", takes := .value fun s => (word? s).isSome,
      help := "Run ids 1..=N instead of the configured set" },
    { name := "jobs", takes := .value fun s => (count? s).isSome,
      help := "Programs processed concurrently" } ]

def diffChoices : List Choice :=
  [ { name := "a", takes := .value isPath, required := true, help := "Base program" },
    { name := "b", takes := .value isPath, required := true, help := "Modified program" },
    { name := "resultFilePath", takes := .value isPath, required := true,
      help := "Where the diff is written" },
    { name := "id", takes := .value fun s => (word? s).isSome,
      help := "Program id (default: leading number of the base file name)" } ]

def reportChoices : List Choice :=
  let kinds := ReportKind.all.map ReportKind.name
  [ { name := "kind", takes := .value kinds.contains, required := true, help := "Report to build",
      values := kinds },
    { name := "out", takes := .value isPath,
      help := "Rows output (default: <log_dir>/<kind>_rows.jsonl)" },
    { name := "log", takes := .value fun _ => true,
      help := "Result log under the log directory (timing only; default: jse_results)" } ]

def commands : List Command :=
  [ ⟨"full", "Full engine runs with cache writing", workflowChoices⟩,
    ⟨"targeted", "Targeted runs over stored caches, cold where no cache is usable", workflowChoices⟩,
    ⟨"fuzz", "Fuzzer runs at every configured budget", workflowChoices⟩,
    ⟨"experiment1", "Full runs without cache writing, then fuzz runs", workflowChoices⟩,
    ⟨"experiment2", "Full then targeted runs, per program", workflowChoices⟩,
    ⟨"diff", "Write the structural diff of two programs", diffChoices⟩,
    ⟨"calibrate", "Measure per-mode launcher overhead", []⟩,
    ⟨"report", "Aggregate result logs into a summary and NDJSON rows", reportChoices⟩ ]

def command? (name : String) : Option Command := commands.find? (·.name = name)

def Command.request? (c : Command) (given : Given) : Option Request :=
  match c.name with
  | "diff" => do
    return .diff (← given.lookup "a") (← given.lookup "b") (← given.lookup "resultFilePath")
      ((given.lookup "id").bind word?)
  | "calibrate" => some .calibrate
  | "report" => do
    return .report (← (given.lookup "kind").bind ReportKind.ofName?) (given.lookup "out")
      (given.lookup "log")
  | name => do
    return .workflow (← Workflow.ofName? name) ((given.lookup "programs").bind word?)
      ((given.lookup "jobs").bind count?)

inductive Topic where
  | program
  | command (command : Command)
  | help

inductive Reading where
  | request (config : Option Location) (request : Request)
  | help (topic : Topic)
  | version
  | misuse

/-- The arguments of a command. A configuration that is named here is meant rather than one that
was named before. -/
def readCommand (c : Command) (before : Given) (args : List String) : Reading :=
  match readOptions (c.choices ++ globals) false none args [] with
  | .error .help => .help (.command c)
  | .error _ => .misuse
  | .ok (given, rest) =>
    if !rest.isEmpty || !isComplete c.choices given then .misuse
    else match c.request? given with
      | some request =>
        .request ((given.lookup "config").orElse fun _ => before.lookup "config") request
      | none => .misuse

def readHelp : List String → Reading
  | [] => .help .program
  | [name] =>
    match command? name with
    | some c => .help (.command c)
    | none => if name = "help" then .help .help else .misuse
  | _ => .misuse

def read (args : List String) : Reading :=
  match readOptions globals true none args [] with
  | .error .help => .help .program
  | .error .version => .version
  | .error .misuse => .misuse
  | .ok (_, []) => .misuse
  | .ok (given, name :: rest) =>
    match command? name with
    | some c => readCommand c given rest
    | none => if name = "help" then readHelp rest else .misuse

end CommandLine

end Reanalysis
