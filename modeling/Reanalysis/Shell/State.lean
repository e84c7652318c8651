import Reanalysis.Files.Basic
import Reanalysis.Shell.Script
import Reanalysis.Shell.Signal

/-!
# The state of a running script

Files, bindings, channels and processes, and a clock that only waiting moves. Where the clock
reaches the limit, everything stops at once: what was written until then stays written. A bound on
the number of steps stands for scripts that never end.

What goes on beside a script is run to its end as soon as it starts, with the times of what it
does. A signal to it that comes later is then too late; the whole run is made again with the signal
known from the start.

Part of the system that the harness runs on, and of no result: see `Reanalysis.Shell.Launch`.
-/

namespace Reanalysis.Shell

open Files (Location)

inductive Channel where
  | output
  | errors
  /-- To whoever reads this output: a later stage of a pipeline, or the word around a script. -/
  | captured
  | file (number : Nat)
  | discarded
deriving DecidableEq, Repr

structure Piece where
  time : Nat
  bytes : Bytes

structure Printed extends Piece where
  toErrors : Bool

/-- What can be read: its pieces in the order of time, and when it is known that none follows. -/
structure Input where
  pieces : List Piece := []
  ends : Nat := 0

structure Arrival where
  time : Nat
  process : Nat
  signal : Signal
deriving DecidableEq, Repr

/-- Something that goes on beside the script. -/
structure Job where
  process : Nat
  ends : Nat
  ending : Ending

/-- What holds the output open even after everything was stopped. -/
structure Escape where
  ends : Nat
  holdsOutput : Bool
  holdsErrors : Bool

/-- What keeps a script from going on with its next command. -/
inductive Flow where
  | ended (status : Nat)
  | leave (loops : Nat)
  | again (loops : Nat)
  | back (status : Nat)
  | died (signal : Signal)
  | stopped
  | exhausted
  /-- The run has to be made again with a signal that it did not know of. -/
  | foresee (arrival : Arrival)
deriving DecidableEq, Repr

/-- The number of the process that everything starts from, and of the group that all belong to. -/
def firstProcess : Nat := 1000

def environment : List (String × String) :=
  [("PATH", "/usr/local/sbin:/usr/local/bin:/usr/sbin:/usr/bin:/sbin:/bin"), ("HOME", "/root")]

structure State where
  files : Files
  /-- From the working directory on; empty for the working directory itself. -/
  directory : Location
  name : String
  args : List String
  input : Input := {}
  bindings : List (String × String) := environment
  exported : List String := environment.map (·.1)
  fixed : List String := []
  /-- What the variables of a function were before it, if a function runs. -/
  locals : Option (List (String × Option String)) := none
  functions : List (String × Script) := []
  channels : List (Nat × Channel) := [(1, .output), (2, .errors)]
  status : Nat := 0
  line : Nat := 1
  /-- What runs the script apart from the shell itself, for messages. -/
  context : String := ""
  /-- The last piece first. -/
  captured : List Piece := []
  /-- Until when something beside can still write to where output is captured. -/
  heldUntil : Nat := 0
  /-- The last piece first. -/
  printed : List Printed := []
  clock : Nat := 0
  limit : Option Nat
  steps : Nat
  switches : List Char := []
  /-- A failure is being tested for, so that it does not end a strict script. -/
  tested : Bool := false
  loops : Nat := 0
  /-- The process that runs this part, and the one that runs the script. -/
  process : Nat := firstProcess
  owner : Nat := firstProcess
  /-- The processes that this one was started by. -/
  ancestors : List Nat := []
  nextProcess : Nat := firstProcess + 1
  jobs : List Job := []
  lastJob : Option Nat := none
  /-- What is done at a signal; nothing if the text is empty. -/
  traps : List (Signal × String) := []
  arriving : List Arrival := []
  known : List Arrival := []
  escapes : List Escape := []

/-- What a part with a state of its own leaves behind: what it wrote and the time it took. -/
def State.rejoin (outer inner : State) : State :=
  { outer with
    files := inner.files, input := inner.input, captured := inner.captured
    heldUntil := inner.heldUntil, printed := inner.printed, clock := inner.clock
    steps := inner.steps, nextProcess := inner.nextProcess, arriving := inner.arriving
    escapes := inner.escapes }

def State.isOn (s : State) (switch : Char) : Bool := s.switches.contains switch

/-- Whether a signal is the end of this process, or its standstill. -/
def State.isFatal (s : State) (signal : Signal) : Bool :=
  Signal.effect signal ≠ .nothing
    && (!Signal.canBeCaught signal || (s.traps.lookup signal).isNone)

/-- The first signal up to a time that is the end of this process. -/
def State.fatal? (s : State) (time : Nat) : Option Arrival :=
  let fatal := s.arriving.filter fun a =>
    a.process = s.process && a.time ≤ time && s.isFatal a.signal
  (fatal.mergeSort fun a b => a.time ≤ b.time).head?

/-- The state that a new process starts with: only signals that are ignored stay so. -/
def State.forked (s : State) : State :=
  { s with
    process := s.nextProcess, nextProcess := s.nextProcess + 1, jobs := []
    ancestors := s.process :: s.ancestors
    traps := s.traps.filter (·.2 = "") }

def State.foreseen (s : State) (a : Arrival) : Bool := s.known.contains a

def never : Nat := 1000000000000000000000000000000

abbrev Act := ExceptT Flow (StateM State)

namespace Act

def setStatus (status : Nat) : Act Unit := modify fun s => { s with status }

def step : Act Unit := do
  match (← get).steps with
  | 0 => throw .exhausted
  | n + 1 => modify fun s => { s with steps := n }

/-! ## Time and signals -/

def reach (time : Nat) : Act Unit := do
  let s ← get
  match s.limit with
  | some limit =>
    if limit ≤ time then
      set { s with clock := limit }
      throw .stopped
    set { s with clock := time }
  | none => set { s with clock := time }

/-- Lets time pass, and takes the signals that come in it. -/
def passTo (time : Nat) : Act Unit := do
  let s ← get
  let time := max time s.clock
  match s.fatal? time with
  | none => if s.clock < time then reach time
  | some a =>
    set { s with arriving := s.arriving.erase a }
    reach (max a.time s.clock)
    match Signal.effect a.signal with
    | .standstill =>
      reach never
      throw .exhausted
    | _ => throw (.died a.signal)

def sleep (nanos : Nat) : Act Unit := do passTo ((← get).clock + nanos)

/-- Takes the signals that have come, and gives what is to be done about them. -/
def dueActions : Act (List String) := do
  passTo (← get).clock
  let s ← get
  let isDue (a : Arrival) : Bool := a.process = s.process && a.time ≤ s.clock
  let due := (s.arriving.filter isDue).mergeSort fun a b => a.signal ≤ b.signal
  if due.isEmpty then return []
  set { s with arriving := s.arriving.filter fun a => !isDue a }
  return (due.filterMap fun a => s.traps.lookup a.signal).filter (· ≠ "")

/-- Sends a signal, and says whether there is such a process. -/
def send (process : Nat) (signal : Signal) : Act Bool := do
  let s ← get
  let arrival : Arrival := ⟨s.clock, process, signal⟩
  let record : Act Unit := do
    if signal ≠ 0 then set { s with arriving := s.arriving ++ [arrival] }
  if process = s.process then
    record
    passTo s.clock
    return true
  else if s.ancestors.contains process then
    record
    return true
  else match s.jobs.find? (·.process = process) with
    | none => return false
    | some job =>
      if s.foreseen arrival then return true
      else if job.ends ≤ s.clock then return false
      else if signal = 0 then return true
      else throw (.foresee arrival)

/-! ## Variables -/

def held? (name : String) : Act (Option String) := return (← get).bindings.lookup name

def setVariable (name value : String) : Act Unit := modify fun s =>
  { s with
    bindings := (name, value) :: s.bindings.filter (·.1 ≠ name)
    exported := if s.isOn 'a' then name :: s.exported else s.exported }

def dropVariable (name : String) : Act Unit := modify fun s =>
  { s with
    bindings := s.bindings.filter (·.1 ≠ name)
    exported := s.exported.filter (· ≠ name) }

/-! ## Channels -/

def setChannel (n : Nat) (channel : Option Channel) : Act Unit := modify fun s =>
  let others := s.channels.filter (·.1 ≠ n)
  { s with channels := match channel with
    | some c => (n, c) :: others
    | none => others }

def write (n : Nat) (bytes : Bytes) : Act Bool := do
  let s ← get
  match s.channels.lookup n with
  | none => return false
  | some .discarded => return true
  | some .captured => set { s with captured := ⟨s.clock, bytes⟩ :: s.captured }; return true
  | some (.file number) =>
    set { s with files := s.files.setContent number (s.files.content number ++ bytes) }
    return true
  | some .output => set { s with printed := ⟨⟨s.clock, bytes⟩, false⟩ :: s.printed }; return true
  | some .errors => set { s with printed := ⟨⟨s.clock, bytes⟩, true⟩ :: s.printed }; return true

/-- Prints a command's result; nowhere to print to is a failure. -/
def print (bytes : Bytes) : Act Nat := do
  if bytes.isEmpty then return 0
  return if (← write 1 bytes) then 0 else 1

def complain (message : String) : Act Unit := do
  let _ ← write 2 (Text.encode (message ++ "\n"))

/-- A message of the script itself, with its name and the line. -/
def complainHere (message : String) : Act Unit := do
  let s ← get
  complain (s.name ++ ": " ++ toString s.line ++ ": " ++ message)

/-- A message about a command before it runs. -/
def protest (message : String) : Act Unit := do complainHere ((← get).context ++ message)

/-- A mistake that is the end of the script. -/
def giveUp {α : Type} (message : String) : Act α := do
  protest message
  throw (.ended 2)

/-! ## Reading -/

/-- Takes the next piece of what there is to read, when it is there; nothing at the end. -/
def nextPiece? : Act (Option Bytes) := do
  let s ← get
  match s.input.pieces with
  | [] =>
    passTo s.input.ends
    return none
  | p :: rest =>
    passTo p.time
    modify fun s => { s with input := { s.input with pieces := rest } }
    return some p.bytes

def takeInput : Act Bytes := do
  let s ← get
  let bytes := s.input.pieces.flatMap (·.bytes)
  passTo (s.input.pieces.foldl (fun t p => max t p.time) s.input.ends)
  modify fun s => { s with input := { s.input with pieces := [] } }
  return bytes

def returnInput (bytes : Bytes) : Act Unit := modify fun s =>
  if bytes.isEmpty then s
  else { s with input := { s.input with pieces := ⟨s.clock, bytes⟩ :: s.input.pieces } }

/-! ## Files -/

/-- Where a location leads from the current directory. -/
def located (p : Location) : Act Location := do
  let here := (← get).directory
  if p.startsWith "/" || here = "" || p = "" then return p
  return Files.join here p

def look {α : Type} (p : Location) (f : Files → Location → α) : Act α := do
  return f (← get).files (← located p)

def setFiles (files : Files) : Act Unit := modify fun s => { s with files }

def change (p : Location) (f : Files → Location → Except FileError Files) :
    Act (Option FileError) := do
  match ← look p f with
  | .ok files => setFiles files; return none
  | .error e => return some e

def makeDirectories (p : Location) : Act (Option FileError) := do
  let (files, failure) ← look p Files.makeDirectories
  setFiles files
  return failure

/-! ## Parts of a script that are processes of their own -/

/-- How a part that is a process of its own ended, if it ended by itself. -/
def endingOf (result : Except Flow Unit) (inner : State) : Except Flow Ending :=
  match result with
  | .ok () | .error (.leave _) | .error (.again _) => .ok (.exited (inner.status % 256))
  | .error (.ended status) | .error (.back status) => .ok (.exited (status % 256))
  | .error (.died signal) => .ok (.died signal)
  | .error flow => .error flow

/-- Runs a part whose variables, directory and channels are its own. -/
def isolated (body : Act Unit) : Act Ending := fun s =>
  let (result, inner) := body.run.run s.forked
  (endingOf result inner, s.rejoin inner)

/-- What a part writes to its first channel, by time, with how the part went. -/
def capture {α : Type} (body : Act α) (s : State) : Except Flow α × Input × State :=
  let (result, inner) := body.run.run { s with
    captured := [], heldUntil := 0
    channels := (1, .captured) :: s.channels.filter (·.1 ≠ 1) }
  let pieces := inner.captured.reverse.mergeSort fun a b => a.time ≤ b.time
  (result, ⟨pieces, max inner.clock inner.heldUntil⟩,
    { inner with captured := s.captured, heldUntil := s.heldUntil, channels := s.channels })

/-- What a part writes to its first channel, once nobody is left to write there. -/
def capturing {α : Type} (body : Act α) : Act (α × Bytes) := fun s =>
  let (result, written, after) := capture body s
  match result with
  | .error flow => (.error flow, after)
  | .ok a => ((do passTo written.ends; return (a, written.pieces.flatMap (·.bytes))) : Act _) after

/-- Runs a part that starts now and goes on beside the rest. It reads nothing, and is not
interrupted from outside. -/
def beside (body : Act Unit) : Act Unit := fun s =>
  let process := s.nextProcess
  let start := { s with input := {}, traps := [(2, ""), (3, "")] ++ s.traps }
  let (result, inner) := (isolated body).run.run start
  let settled (ends : Nat) (ending : Ending) : Except Flow Unit × State :=
    let holds := s.channels.any (·.2 = .captured)
    (.ok (), { s.rejoin inner with
      input := s.input, clock := s.clock, status := 0
      heldUntil := if holds then max inner.heldUntil ends else inner.heldUntil
      jobs := ⟨process, ends, ending⟩ :: s.jobs, lastJob := some process })
  match result with
  | .ok ending => settled inner.clock ending
  | .error (.foresee a) => (.error (.foresee a), s.rejoin inner)
  | .error .stopped => settled (s.limit.getD inner.clock) (.died Signal.kill)
  | .error _ => settled never (.exited 0)

/-- Waits until a time, or until a signal comes that something is to be done about. Tells which. -/
def waitUntil (time : Nat) : Act (Option Signal) := do
  let s ← get
  let caught := s.arriving.filter fun a =>
    a.process = s.process && a.time < time && !s.isFatal a.signal
      && (s.traps.lookup a.signal).any (· ≠ "")
  match (caught.mergeSort fun a b => a.time ≤ b.time).head? with
  | some a => passTo a.time; return some a.signal
  | none => passTo time; return none

def waitAll : Act Nat := do
  let s ← get
  match ← waitUntil (s.jobs.foldl (fun t job => max t job.ends) s.clock) with
  | some signal => return 128 + signal
  | none =>
    modify fun s => { s with jobs := [] }
    return 0

/-- Waits for one process and gives its status. A death that is waited for is told of. -/
def waitFor (process : Nat) : Act Nat := do
  let s ← get
  match s.jobs.find? (·.process = process) with
  | none => return 127
  | some job =>
    match ← waitUntil job.ends with
    | some signal => return 128 + signal
    | none =>
      match job.ending with
      | .died signal =>
        if s.clock ≤ job.ends then
          match Signal.obituary? signal with
          | some text => complain text
          | none => pure ()
      | .exited _ => pure ()
      return job.ending.status

end Act

end Reanalysis.Shell
