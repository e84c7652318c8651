import Reanalysis.Config.Validation

/-!
# Commands

A command line with its time limit. It is checked when it is built: it names a program, its limit
is not zero, and its input files are there.
-/

namespace Reanalysis

open Files (Location)

inductive CommandError where
  /-- No program is named for what the command is to do. -/
  | empty (purpose : String)
  | invalidTimeout (seconds : Float)
  | missingInput (path : Location)

def CommandError.message : CommandError → String
  | .empty purpose => "empty command for " ++ purpose
  | .invalidTimeout x => "invalid timeout: " ++ Decimal.message.render x ++ " seconds"
  | .missingInput path => "command input not found: " ++ path

structure Command where
  program : String
  args : List String
  timeout : Duration
deriving DecidableEq, Repr

namespace Command

def render (c : Command) : String := " ".intercalate (c.program :: c.args)

def toJson (c : Command) : Json.Value :=
  .object [("program", .text c.program), ("args", .list (c.args.map .text)),
    ("timeout", c.timeout.toJson)]

/-- The first arguments are configured, the others follow. -/
def build (fs : Files) (purpose : String) (argv args : List String) (inputs : List Location)
    (timeout : Duration) : Except CommandError Command :=
  match argv with
  | [] => .error (.empty purpose)
  | program :: rest =>
    if Text.isBlankText program then .error (.empty purpose)
    else if timeout = .zero then .error (.invalidTimeout timeout.toSeconds)
    else match inputs.find? (!fs.isFile ·) with
      | some path => .error (.missingInput path)
      | none => .ok ⟨program, rest ++ args, timeout⟩

def option (name : String) (path : Location) : String := "--" ++ name ++ "=" ++ path

def full (fs : Files) (argv : List String) (source : Location) (writeCache : Bool)
    (timeout : Duration) : Except CommandError Command :=
  build fs "full run" argv
    (option "file" source :: if writeCache then ["--writecache"] else []) [source] timeout

def targeted (fs : Files) (argv : List String) (cache diff : Location) (timeout : Duration) :
    Except CommandError Command :=
  build fs "targeted run" argv ["--diff", option "cache" cache, option "diffFile" diff] [cache, diff]
    timeout

/-- A targeted run without usable state: a full run of the modified program. -/
def cold (fs : Files) (argv : List String) (modified : Location) (timeout : Duration) :
    Except CommandError Command :=
  build fs "cold run" argv [option "file" modified] [modified] timeout

/-- The fuzzer stops by itself when its budget is used up; the limit leaves it some grace. -/
def fuzz (fs : Files) (argv : List String) (harness : Location) (budget : Float)
    (grace : Duration) : Except CommandError Command :=
  if !Config.isBudget budget then .error (.invalidTimeout budget)
  else build fs "fuzz run" argv
    [harness, "--", "-max_total_time=" ++ Decimal.message.render budget, "-print_final_stats=1"]
    [harness] ((Duration.ofSeconds budget).add grace)

def differ (fs : Files) (argv : List String) (base modified result : Location)
    (timeout : Duration) : Except CommandError Command :=
  build fs "diff" argv
    [option "a" base, option "b" modified, option "resultFilePath" result] [base, modified] timeout

end Command

end Reanalysis
