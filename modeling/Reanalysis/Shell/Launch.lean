import Reanalysis.Engine.Runner
import Reanalysis.Shell.Evaluation

/-!
# Launching programs

Commands run for what they are: the shell with a script, or one of the utilities. A command that
has not ended by its limit is stopped with everything that it started, and what it printed until
then is kept; one that ends before may leave jobs behind, and these run to their end.

The shell and its utilities are the system's, which the harness takes as given. They are here so that
the whole program can be run: only `Main` launches engines through them, and no result is about them.
The results hold for any runner in the place of this one.
-/

namespace Reanalysis.Shell

open Files (Location)
open Act

/-- How deep scripts may nest, and how many steps one may take. -/
def depthBound : Nat := 10000

def stepBound : Nat := 500000

def program? (name : String) (args : List String) : Option (Act Unit) :=
  if isShell name then some (shellBody depthBound name (Invocation.ofArgs { args := [] } args))
  else if (utilities.lookup (toolName name)).isSome || wrappers.contains (toolName name) then
    let body : Act Unit := do
      match ← program depthBound name args with
      | some (.exited status) => setStatus status
      | some (.died signal) => throw (.died signal)
      | none => setStatus 127
    some (if toolName name = "setsid" then beside body else body)
  else none

/-- A run from its start, with a limit or without. It is made again with what it did not foresee,
for so many times at most. -/
def runProgram (fs : Files) (directory : Location) (name : String) (body : Act Unit)
    (limit : Option Nat) : Except Flow Unit × State :=
  let start (known : List Arrival) : State :=
    { files := fs, directory, name, args := [], limit, steps := stepBound, arriving := known, known }
  let rec attempt : Nat → List Arrival → Except Flow Unit × State
    | 0, known => (.error .exhausted, start known)
    | fuel + 1, known =>
      match body.run.run (start known) with
      | (.error (.foresee a), _) => attempt fuel (known ++ [a])
      | found => found
  attempt 50 []

def drainWindow : Nat := 500000000

/-- What was printed to one side, in the order of time. Of something that was stopped nothing is
known if the output is held open for too long. -/
def printedText (toErrors stopped : Bool) (s : State) : String :=
  let isHeld := s.escapes.any fun e =>
    (if toErrors then e.holdsErrors else e.holdsOutput) && s.clock + drainWindow < e.ends
  if stopped && isHeld then ""
  else
    let pieces := s.printed.reverse.filter (·.toErrors == toErrors)
    Text.decodeLossy ((pieces.mergeSort fun a b => a.time ≤ b.time).flatMap (·.bytes))

/-- The exit code of a program that ended by itself. A signal leaves no code. -/
def exitCode? (result : Except Flow Unit) (s : State) : Option Int :=
  match result with
  | .ok () | .error (.leave _) | .error (.again _) => some (s.status % 256)
  | .error (.ended status) | .error (.back status) => some (status % 256)
  | .error (.died _) => some (-1)
  | .error _ => none

/-- Why a command cannot be started: it is there, or it is not. -/
def launchFailure (files : Files) (name : String) : String :=
  if name.toList.contains '/' && (files.find name).isOk then "Permission denied (os error 13)"
  else FileError.notFound.message

def launch (directory : Location) {σ : Type} : Runner σ := fun command => do
  let world ← get
  let failed (message : String) : StateM (World σ) Outcome :=
    return ⟨.launchFailed message, .zero, "", ""⟩
  let here := directory = "" || world.files.isDirectory directory
  if (command.program :: command.args).any (·.toList.contains '\x00') then
    failed "nul byte found in provided data"
  else match (if here then program? command.program command.args else none) with
  | none => failed (launchFailure world.files command.program)
  | some body =>
    let attempt := runProgram world.files directory command.program body
    let (result, free) := attempt none
    match exitCode? result free with
    | some code =>
      if free.clock < command.timeout.nanos then
        set { world with files := free.files }
        return ⟨.exited code, ⟨free.clock⟩, printedText false false free,
          printedText true false free⟩
      else stopped attempt command world
    | none => stopped attempt command world
where
  stopped (attempt : Option Nat → Except Flow Unit × State) (command : Command)
      (world : World σ) : StateM (World σ) Outcome := do
    let (_, cut) := attempt (some command.timeout.nanos)
    set { world with files := cut.files }
    return ⟨.timedOut, command.timeout, printedText false true cut, printedText true true cut⟩

end Reanalysis.Shell
