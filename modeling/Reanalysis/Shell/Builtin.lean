import Reanalysis.Shell.Condition
import Reanalysis.Shell.Expansion
import Reanalysis.Shell.Reading
import Reanalysis.Shell.Utility

/-!
# Commands of the shell itself

What the shell does without another program, apart from what runs a script. Mistakes in some of
these commands are the end of the script, in others only of the command.

Part of the system that the harness runs on, and of no result: see `Reanalysis.Shell.Launch`.
-/

namespace Reanalysis.Shell

open Files (Location)

namespace Builtin

open Act

/-- A mistake in a command after which the script goes on. -/
def refuse (tool message : String) : Act Nat := do
  complainHere (tool ++ ": " ++ message)
  return 2

/-- A mistake in a command that is the end of the script. -/
def abandon {α : Type} (tool message : String) : Act α := do
  complainHere (tool ++ ": " ++ message)
  throw (.ended 2)

def isNumber (s : String) : Bool := s ≠ "" && s.toList.all Char.isDigit

def numberOr (tool : String) (usual : Nat) : List String → Act Nat
  | [] => return usual
  | arg :: _ =>
    if isNumber arg then return Escape.digits arg.toList
    else abandon tool ("Illegal number: " ++ arg)

/-! ## Leaving -/

/-- Out of loops, or on to their next turn. Outside of loops nothing happens. -/
def leaveLoops (tool : String) (flow : Nat → Flow) (args : List String) : Act Nat := do
  let n ← numberOr tool 1 args
  if n = 0 then abandon tool ("Illegal number: " ++ args.headD "")
  let n := min n (← get).loops
  if n > 0 then throw (flow n)
  return 0

def shift (args : List String) : Act Nat := do
  let n ← numberOr "shift" 1 args
  let s ← get
  if s.args.length < n then abandon "shift" "can't shift that many"
  set { s with args := s.args.drop n }
  return 0

/-! ## Switches -/

def switchNames : List (String × Char) :=
  [("errexit", 'e'), ("noglob", 'f'), ("nounset", 'u'), ("xtrace", 'x'), ("allexport", 'a'),
    ("verbose", 'v'), ("noclobber", 'C'), ("noexec", 'n'), ("notify", 'b'), ("monitor", 'm'),
    ("interactive", 'i'), ("stdin", 's'), ("privileged", 'p')]

def isSwitch (c : Char) : Bool := switchNames.any (·.2 = c)

def turn (on : Bool) (switch : Char) : Act Unit := modify fun s =>
  let others := s.switches.filter (· ≠ switch)
  { s with switches := if on then switch :: others else others }

/-- The sign and the letters of an argument that holds switches. -/
def switchLetters? (arg : String) : Option (Bool × List Char) :=
  match arg.toList with
  | '-' :: c :: cs => some (true, c :: cs)
  | '+' :: c :: cs => some (false, c :: cs)
  | _ => none

/-- Sets the switches and, if there are any after them, the arguments of the script. -/
def setOptions : List String → Act Nat
  | [] => return 0
  | "--" :: args => do
    modify fun s => { s with args }
    return 0
  | "-o" :: name :: rest | "+o" :: name :: rest => do
    match switchNames.lookup name with
    | some c =>
      turn true c
      setOptions rest
    | none => abandon "set" ("Illegal option -o " ++ name)
  | arg :: rest => do
    match switchLetters? arg with
    | some (on, letters) =>
      for c in letters do
        if isSwitch c then turn on c
        else abandon "set" ("Illegal option -" ++ String.ofList [c])
      setOptions rest
    | none =>
      modify fun s => { s with args := arg :: rest }
      return 0

/-! ## Variables -/

def assign (name value : String) : Act Unit := do
  if (← get).fixed.contains name then giveUp (name ++ ": is read only")
  setVariable name value

def splitAssignment (arg : String) : String × Option String :=
  match arg.toList.span (· ≠ '=') with
  | (name, _ :: value) => (String.ofList name, some (String.ofList value))
  | (name, []) => (String.ofList name, none)

def declare (tool : String) (mark : String → Act Unit) (args : List String) : Act Nat := do
  for arg in args do
    let (name, value) := splitAssignment arg
    if !Words.isName name then abandon tool (name ++ ": bad variable name")
    match value with
    | some v => assign name v
    | none => pure ()
    mark name
  return 0

def exportNames (args : List String) : Act Nat :=
  declare "export" (fun name => modify fun s => { s with exported := name :: s.exported })
    (args.filter (· ≠ "-p"))

def readonlyNames (args : List String) : Act Nat :=
  declare "readonly" (fun name => modify fun s => { s with fixed := name :: s.fixed })
    (args.filter (· ≠ "-p"))

def localNames (args : List String) : Act Nat := do
  match (← get).locals with
  | none => abandon "local" "not in a function"
  | some _ =>
    for arg in args do
      let (name, value) := splitAssignment arg
      let before ← held? name
      modify fun s => { s with locals := s.locals.map ((name, before) :: ·) }
      match value with
      | some v => setVariable name v
      | none => pure ()
    return 0

def unset : List String → Act Nat
  | [] => return 0
  | "-f" :: names => do
    modify fun s => { s with functions := s.functions.filter fun f => !names.contains f.1 }
    return 0
  | "-v" :: names | names => do
    for name in names do
      if (← get).fixed.contains name then abandon "unset" (name ++ ": is read only")
      dropVariable name
    return 0

/-! ## Reading -/

/-- Takes one line of what there is to read, and tells whether it was ended; `fuel` bounds the
pieces. -/
def takeLine : Nat → Bytes → Act (Bytes × Bool)
  | 0, read => return (read, false)
  | fuel + 1, read => do
    match ← nextPiece? with
    | none => return (read, false)
    | some bytes =>
      let line := bytes.takeWhile (· ≠ 10)
      if line.length < bytes.length then
        returnInput (bytes.drop (line.length + 1))
        return (read ++ line, true)
      takeLine fuel (read ++ bytes)

/-- Marks the characters that a backslash stands before. -/
def unescaped : List Char → List Marked
  | '\\' :: c :: rest => (c, true) :: unescaped rest
  | ['\\'] => []
  | c :: rest => (c, false) :: unescaped rest
  | [] => []

/-- Gives each variable a field, and the last one the rest. -/
def fillNames (separators : List Char) : List String → List Marked → Act Unit
  | [], _ => return
  | name :: rest, line => do
    let isSeparator (c : Marked) : Bool := !c.2 && separators.contains c.1
    let isBlank (c : Marked) : Bool := isSeparator c && (c.1 = ' ' || c.1 = '\t' || c.1 = '\n')
    let line := line.dropWhile isBlank
    if rest.isEmpty then
      assign name (String.ofList (((line.reverse.dropWhile isBlank).reverse).map (·.1)))
    else
      let field := line.takeWhile (!isSeparator ·)
      let after := (line.drop field.length).dropWhile isBlank
      let after := match after with
        | c :: more => if isSeparator c then more else after
        | [] => []
      assign name (String.ofList (field.map (·.1)))
      fillNames separators rest after

def readNames (raw : Bool) : List String → Act Nat
  | "-r" :: rest => readNames true rest
  | "-p" :: _ :: rest => readNames raw rest
  | [] => refuse "read" "arg count"
  | names => do
    let pieces := (← get).input.pieces.length
    let (bytes, ended) ← takeLine (pieces + 1) []
    let cs := (Text.decodeLossy bytes).toList
    let line := if raw then cs.map (·, false) else unescaped cs
    fillNames (← Expansion.separators) names line
    return if ended then 0 else 1

/-! ## Signals and processes -/

/-- What a process is called: by its number, as a group with a minus, or as a job. -/
def sendTo (signal : Signal) (target : String) : Act Nat := do
  let s ← get
  let missing : Act Nat := do
    complainHere "kill: No such process\n"
    return 1
  let group : Act Nat := do
    for job in s.jobs.reverse do
      let _ ← send job.process signal
    for ancestor in s.ancestors do
      let _ ← send ancestor signal
    let _ ← send s.process signal
    return 0
  match target.toList with
  | '%' :: cs =>
    match s.jobs.reverse[Escape.digits cs - 1]? with
    | some job => let _ ← send job.process signal; return 0
    | none => refuse "kill" ("No such job: " ++ target)
  | '-' :: cs =>
    if !isNumber (String.ofList cs) then return ← refuse "kill" ("Illegal number: " ++ String.ofList cs)
    if Escape.digits cs = firstProcess then group else missing
  | cs =>
    if !isNumber target then return ← refuse "kill" ("Illegal number: " ++ target)
    if Escape.digits cs = 0 then group
    else if ← send (Escape.digits cs) signal then return 0 else missing

def killUsage : Act Nat :=
  refuse "kill" "Usage: kill [-s sigspec | -signum | -sigspec] [pid | job]... or\nkill -l [exitstatus]"

def sendToAll (signal : Signal) (targets : List String) : Act Nat := do
  if targets.isEmpty then return ← killUsage
  let mut status := 0
  for target in targets do
    let result ← sendTo signal target
    if result = 2 then return 2
    status := max status result
  return status

def kill (args : List String) : Act Nat := do
  match args with
  | [] => killUsage
  | "-l" :: [] =>
    print (Text.encode ("".intercalate
      (("0" :: Signal.names.drop 1).map (· ++ "\n"))))
  | "-l" :: n :: _ =>
    let n := Escape.digits n.toList
    print (Text.encode (Signal.name (if n > 128 then n - 128 else n) ++ "\n"))
  | "-s" :: name :: targets =>
    match Signal.ofText? name with
    | some signal => sendToAll signal targets
    | none => refuse "kill" ("invalid signal number or name: " ++ name)
  | first :: targets =>
    match first.toList with
    | '-' :: c :: cs =>
      match Signal.ofText? (String.ofList (c :: cs)) with
      | some signal => sendToAll signal targets
      | none =>
        if first = "--" then sendToAll Signal.terminate targets
        else refuse "kill" ("Illegal option -" ++ String.ofList [c])
    | _ => sendToAll Signal.terminate (first :: targets)

/-- A text in quotes, as the shell would read it again; `fuel` bounds its length. -/
def quotedText : Nat → List Char → List Char
  | 0, _ => []
  | fuel + 1, cs =>
    let plain := cs.takeWhile (· ≠ '\'')
    let quotes := (cs.drop plain.length).takeWhile (· = '\'')
    let rest := cs.drop (plain.length + quotes.length)
    ['\''] ++ plain ++ ['\'']
      ++ (if quotes.isEmpty then [] else ['"'] ++ quotes ++ ['"'])
      ++ (if rest.isEmpty then [] else quotedText fuel rest)

def trapLines (traps : List (Signal × String)) : String :=
  let sorted := traps.mergeSort fun a b => a.1 ≤ b.1
  "".intercalate (sorted.map fun (signal, action) =>
    "trap -- " ++ String.ofList (quotedText (action.length + 1) action.toList) ++ " "
      ++ Signal.name signal ++ "\n")

/-- Makes an arrangement for signals, or takes it back. -/
def arrange (action : Option String) : List String → Act Nat
  | [] => return 0
  | name :: rest => do
    match Signal.ofText? name with
    | none =>
      complain ("trap: " ++ name ++ ": bad trap")
      return 1
    | some signal =>
      modify fun s =>
        let others := s.traps.filter (·.1 ≠ signal)
        { s with traps := match action with
          | some a => (signal, a) :: others
          | none => others }
      arrange action rest

def trap (args : List String) : Act Nat := do
  let args := if args.head? = some "--" then args.drop 1 else args
  match args with
  | [] => print (Text.encode (trapLines (← get).traps))
  | [name] =>
    if name.startsWith "-" && name.length > 1 then illegal name else arrange none [name]
  | action :: names =>
    if action.startsWith "-" && action.length > 1 then illegal action
    else if isNumber action && (Signal.ofText? action).isSome then arrange none args
    else arrange (if action = "-" then none else some action) names
where
  illegal (arg : String) : Act Nat :=
    abandon "trap" ("Illegal option " ++ String.ofList (arg.toList.take 2))

def wait (args : List String) : Act Nat := do
  if args.isEmpty then return ← waitAll
  let mut status := 0
  for arg in args do
    let jobs := (← get).jobs.reverse
    let number := match arg.toList with
      | '%' :: cs => (jobs[Escape.digits cs - 1]?.map Job.process).getD 0
      | cs => Escape.digits cs
    if !arg.startsWith "%" && !isNumber arg then return ← refuse "wait" ("Illegal number: " ++ arg)
    status ← waitFor number
  return status

/-! ## Directories -/

def changeDirectory (args : List String) : Act Nat := do
  let path ← match args.filter (· ≠ "--") with
    | path :: _ => pure path
    | [] => pure ((← held? "HOME").getD "")
  if ← look path Files.isDirectory then
    let there ← located path
    modify fun s => { s with directory := there }
    return 0
  refuse "cd" ("can't cd to " ++ path)

/-! ## Tests -/

def test (tool : String) (args : List String) : Act Nat := do
  match ← (Condition.eval 4 args).run with
  | .ok true => return 0
  | .ok false => return 1
  | .error fault => refuse tool fault.message

def bracket (args : List String) : Act Nat :=
  if args.getLast? = some "]" then test "[" args.dropLast else refuse "[" "missing ]"

end Builtin

open Builtin in
/-- The commands that the shell does itself, apart from those that run a script. -/
def builtins : List (String × Utility) :=
  [ (":", fun _ => return 0), ("true", fun _ => return 0), ("false", fun _ => return 1),
    ("echo", Utility.echo), ("printf", Utility.printf), ("test", test "test"), ("[", bracket),
    ("exit", fun args => do throw (.ended (← numberOr "exit" (← get).status args))),
    ("return", fun args => do throw (.back (← numberOr "return" (← get).status args))),
    ("break", leaveLoops "break" .leave), ("continue", leaveLoops "continue" .again),
    ("shift", shift), ("set", setOptions), ("export", exportNames),
    ("readonly", readonlyNames), ("local", localNames), ("unset", unset),
    ("cd", changeDirectory),
    ("pwd", fun _ => do
      let here := (← get).directory
      Act.print (Text.encode ((if here.startsWith "/" then here else "/" ++ here) ++ "\n"))),
    ("read", readNames false), ("wait", wait), ("kill", kill), ("trap", trap),
    ("umask", fun args => if args.isEmpty then Act.print (Text.encode "0022\n") else return 0),
    ("hash", fun _ => return 0), ("jobs", fun _ => return 0), ("alias", fun _ => return 0),
    ("unalias", fun _ => return 0), ("ulimit", fun _ => return 0),
    ("times", fun _ => Act.print (Text.encode
      "0m0.000000s 0m0.000000s\n0m0.000000s 0m0.000000s\n")) ]

/-- The commands of the shell that run scripts or other commands. -/
def scriptRunners : List String := ["eval", ".", "exec", "command", "type"]

end Reanalysis.Shell
