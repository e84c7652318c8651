import Reanalysis.Shell.Builtin

/-!
# Running scripts

What each command of a script does to the state. Loops are run over the actions of their parts, so
that only the nesting of a script has to be bounded by its depth.

Part of the system that the harness runs on, and of no result: see `Reanalysis.Shell.Launch`.
-/

namespace Reanalysis.Shell

open Files (Location)

namespace Act

/-- Runs something whose failure is no reason to stop. -/
def testing (body : Act Unit) : Act Unit := do
  let before := (← get).tested
  modify fun s => { s with tested := true }
  body
  modify fun s => { s with tested := before }

def succeeded : Act Bool := return (← get).status = 0

/-- In strict scripts a failure that is not tested for is the end. -/
def checkStatus : Act Unit := do
  let s ← get
  if s.isOn 'e' && !s.tested && s.status ≠ 0 then throw (.ended s.status)

/-! ## Loops -/

/-- Runs part of a loop once, and tells whether the loop goes on. -/
def turn (body : Act Unit) : Act Bool :=
  tryCatch (do body; return true) fun flow => match flow with
    | .leave (n + 2) => throw (.leave (n + 1))
    | .leave _ => do setStatus 0; return false
    | .again (n + 2) => throw (.again (n + 1))
    | .again _ => do setStatus 0; return true
    | other => throw other

def inLoop (body : Act Unit) : Act Unit := do
  let before := (← get).loops
  modify fun s => { s with loops := before + 1 }
  tryCatch body fun flow => do
    modify fun s => { s with loops := before }
    throw flow
  modify fun s => { s with loops := before }

/-- Repeats a loop while its condition is as wanted, for so many turns at most. Its status is that
of the last turn. -/
def repeated (wanted : Bool) (condition body : Act Unit) :
    Nat → Nat → State → Except Flow Unit × State
  | 0, _, s => (.error .exhausted, s)
  | n + 1, last, s =>
    match (turn (testing condition)).run.run s with
    | (.error flow, s) => (.error flow, s)
    | (.ok false, s) => (.ok (), s)
    | (.ok true, s) =>
      if (s.status = 0) ≠ wanted then (.ok (), { s with status := last })
      else match (turn body).run.run s with
        | (.error flow, s) => (.error flow, s)
        | (.ok false, s) => (.ok (), s)
        | (.ok true, s) => repeated wanted condition body n s.status s

def loop (wanted : Bool) (condition body : Act Unit) : Act Unit :=
  inLoop fun s => repeated wanted condition body s.steps 0 s

def each (body : String → Act Unit) : List String → Act Unit
  | [] => return
  | arg :: rest => do if ← turn (body arg) then each body rest

/-! ## Redirections -/

/-- Opens a file for a channel; a failure is a message. -/
def openFor (channel : Nat) (access : Access) (path : Location) : Act (Option String) := do
  if path = "/dev/null" then
    if channel = 0 then modify fun s => { s with input := {} }
    else setChannel channel (some .discarded)
    return none
  if path = "/dev/stdout" || path = "/dev/stderr" then
    setChannel channel ((← get).channels.lookup (if path = "/dev/stdout" then 1 else 2))
    return none
  match access with
  | .read =>
    match ← look path Files.read with
    | .ok bytes =>
      modify fun s => { s with input := ⟨[⟨s.clock, bytes⟩], s.clock⟩ }
      return none
    | .error .notFound => return some ("cannot open " ++ path ++ ": No such file")
    | .error .isDirectory =>
      modify fun s => { s with input := {} }
      return none
    | .error e => return some ("cannot open " ++ path ++ ": " ++ Utility.reason e)
  | _ =>
    match ← look path Files.openFile with
    | .ok (number, files) =>
      setFiles (if access = .write then files.setContent number [] else files)
      setChannel channel (some (.file number))
      return none
    | .error .notFound => return some ("cannot create " ++ path ++ ": Directory nonexistent")
    | .error e => return some ("cannot create " ++ path ++ ": " ++ Utility.reason e)

def duplicate (channel : Nat) (target : String) : Act (Option String) := do
  if target = "-" then
    setChannel channel none
    return none
  if !Builtin.isNumber target then return some "Bad fd number"
  match (← get).channels.lookup (Escape.digits target.toList) with
  | some found => setChannel channel (some found); return none
  | none =>
    if target = "0" || channel = 0 then return none
    return some (target ++ ": Bad file descriptor")

def redirect (result : Script → Act String) : List Redirection → Act (Option String)
  | [] => return none
  | r :: rest => do
    let failed ← match r with
      | .file channel access target => do openFor channel access (← Word.text result target)
      | .duplicate channel target => do duplicate channel (← Word.text result target)
      | .document channel text => do
        let bytes := Text.encode (← Word.text result text)
        if channel = 0 then
          modify fun s => { s with input := ⟨[⟨s.clock, bytes⟩], s.clock⟩ }
        pure none
    match failed with
    | some message => return some message
    | none => redirect result rest

def readsOwn (redirections : List Redirection) : Bool :=
  redirections.any fun r => match r with
    | .file 0 _ _ | .document 0 _ => true
    | _ => false

/-- Runs something with its channels redirected. Where that fails, it is not run, and for some
commands that is the end of the script. -/
def redirected (result : Script → Act String) (redirections : List Redirection)
    (failureEnds : Bool) (body : Act Unit) : Act Unit := do
  if redirections.isEmpty then body
  else
    let before ← get
    let restore : Act Unit := modify fun s => { s with
      channels := before.channels
      input := if readsOwn redirections then before.input else s.input }
    match ← redirect result redirections with
    | some message =>
      restore
      protest message
      setStatus 2
      if failureEnds then throw (.ended 2)
    | none =>
      tryCatch body fun flow => do
        restore
        throw flow
      restore

/-! ## Processes -/

/-- Tells of a death, unless nothing is said of it. -/
def mourn : Ending → Act Unit
  | .died signal => match Signal.obituary? signal with
    | some text => complain text
    | none => return
  | .exited _ => return

/-- Each stage of a pipeline starts now and reads what the one before it writes. The last one's
ending counts, and all are waited for except one that could go on for ever. -/
def stages (run : Script → Act Unit) : List Script → State → Except Flow Ending × State
  | [], s => (.ok (.exited 0), s)
  | [last], s => (isolated (run last)).run.run s
  | first :: rest, s =>
    let half := s.steps / 2
    let (result, written, after) := capture (isolated (run first)) { s with steps := half }
    let spare := { after with
      clock := s.clock, steps := after.steps + (s.steps - half)
      input := match result with
        | .error .exhausted => { written with ends := never }
        | .error .stopped => { written with ends := s.limit.getD never }
        | _ => written }
    match result with
    | .error (.foresee a) => (.error (.foresee a), after)
    | _ =>
      let (ending, final) := stages run rest spare
      let final := { final with input := s.input }
      match ending, result with
      | .ok _, .error .stopped => (.error .stopped, { final with clock := after.clock })
      | .ok e, .error .exhausted => (.ok e, final)
      | .ok e, _ => ((do passTo after.clock; return e) : Act Ending) final
      | .error flow, _ => (.error flow, final)

end Act

open Act

/-- The name that a program goes by if it is where programs are. -/
def toolName (program : String) : String :=
  match ["/bin/", "/usr/bin/"].find? fun dir => program.startsWith dir with
  | some dir => (program.drop dir.length).copy
  | none => program

def isShell (program : String) : Bool := toolName program ∈ ["sh", "dash", "bash"]

/-- How a shell was asked to run. -/
structure Invocation where
  switches : List Char := []
  /-- A letter that is no switch. -/
  unknown : Option Char := none
  /-- The first argument is the script itself. -/
  isText : Bool := false
  args : List String
deriving Repr

def Invocation.ofArgs (found : Invocation) : List String → Invocation
  | [] => { found with args := [] }
  | "--" :: rest => { found with args := rest }
  | arg :: rest =>
    match Builtin.switchLetters? arg with
    | some (true, letters) =>
      { found with
        switches := found.switches ++ letters.filter Builtin.isSwitch
        unknown := found.unknown.or (letters.find? fun c => !Builtin.isSwitch c && c ≠ 'c')
        isText := found.isText || letters.contains 'c' }.ofArgs rest
    | some (false, _) => found.ofArgs rest
    | none => { found with args := arg :: rest }

/-- Whether programs are looked for where they are. -/
def findsPrograms : Act Bool := do
  match ← held? "PATH" with
  | some path => return (path.splitOn ":").any fun dir => dir ∈ ["/bin", "/usr/bin"]
  | none => return false

def wrappers : List String := ["env", "nohup", "setsid", "timeout"]

/-- Where a command is found, as the shell tells it. -/
def whereabouts? (name : String) : Act (Option String) := do
  if ((← get).functions.lookup name).isSome || (builtins.lookup name).isSome
    || scriptRunners.contains name || Mark.keywords.contains name then return some name
  let tool := toolName name
  let isProgram := (utilities.lookup tool).isSome || isShell name || wrappers.contains tool
  if !isProgram || !(← findsPrograms) then return none
  return some (if name.startsWith "/" then name else "/usr/bin/" ++ name)

/-- What the shell says of a command, and whether it knows it. -/
def describe (name : String) : Act (String × Bool) := do
  match ← whereabouts? name with
  | none => return (name ++ ": not found", false)
  | some place =>
    let what := if ((← get).functions.lookup name).isSome then " is a shell function"
      else if Mark.keywords.contains name then " is a shell keyword"
      else if Reading.specialCommands.contains name then " is a special shell builtin"
      else if place = name && !name.startsWith "/" then " is a shell builtin"
      else " is " ++ place
    return (name ++ what, true)

def type (args : List String) : Act Nat := do
  let mut status := 0
  for arg in args do
    let (line, known) ← describe arg
    let _ ← print (Text.encode (line ++ "\n"))
    if !known then status := 127
  return status

def locate (args : List String) : Act Nat := do
  let mut status := 0
  for arg in args do
    match ← whereabouts? arg with
    | some place => let _ ← print (Text.encode (place ++ "\n"))
    | none => status := 127
  return status

/-- Runs something that is not stopped with the rest. What it holds open stays open until it
ends, and so long it is waited for. -/
def escaping (limit : Option Nat) (body : Act Ending) : Act Ending := fun s =>
  let (result, inner) := body.run.run { s with limit }
  let holds (channel : Channel) : Bool := s.channels.any (·.2 = channel)
  let escape : Escape := ⟨inner.clock, holds .output, holds .errors⟩
  let after := { inner with limit := s.limit, clock := s.clock, escapes := escape :: inner.escapes }
  match result with
  | .error flow => (.error flow, { after with clock := inner.clock })
  | .ok ending => ((do passTo inner.clock; return ending) : Act Ending) after

def timed (nanos : Nat) (body : Act Ending) : Act Ending := do
  let s ← get
  let ends := s.clock + nanos
  escaping (some ends) (tryCatch body fun flow => match flow with
    | .stopped => do
      modify fun s => { s with clock := ends }
      return .exited 124
    | other => throw other)

/-! ## Scripts -/

/-- Runs the text of a script line by line; `fuel` bounds their number. -/
def eachLine (run : Script → Act Unit) : Nat → Source → Act Unit
  | 0, _ => throw .exhausted
  | fuel + 1, source => do
    match Script.next? source with
    | .ok none => return
    | .ok (some (script, rest)) =>
      run script
      eachLine run fuel rest
    | .error (line, fault) =>
      modify fun s => { s with line }
      giveUp ("Syntax error: " ++ fault.message)

def deliver (runText : String → Act Unit) : Act Unit := do
  for action in ← dueActions do
    let before := (← get).status
    runText action
    setStatus before

/-- Runs something to the end of its process, with what was to be done at the end. -/
def finishing (runText : String → Act Unit) (body : Act Unit) : Act Unit := do
  let status ← tryCatch (do body; return (← get).status) fun flow => do
    match flow with
    | .ended status | .back status => return status
    | .leave _ | .again _ => return (← get).status
    | other => throw other
  setStatus status
  match (← get).traps.lookup Signal.atEnd with
  | none => return
  | some action =>
    modify fun s => { s with traps := s.traps.filter (·.1 ≠ Signal.atEnd) }
    runText action
    setStatus status

/-- Runs something on behalf of a command that messages are to name. -/
def onBehalf (name : String) (body : Act Unit) : Act Unit := do
  let before := (← get).context
  modify fun s => { s with context := name ++ ": " }
  body
  modify fun s => { s with context := before }

def calling (args : List String) (body : Act Unit) : Act Unit := do
  let before ← get
  set { before with args, locals := some [], loops := 0 }
  let restore : Act Unit := modify fun s =>
    let bindings := (s.locals.getD []).foldl (fun bindings (name, old) =>
      let others := bindings.filter fun (b : String × String) => b.1 ≠ name
      match old with
      | some value => (name, value) :: others
      | none => others) s.bindings
    { s with args := before.args, locals := before.locals, loops := before.loops, bindings }
  tryCatch body fun flow => match flow with
    | .back status => setStatus status
    | other => do
      restore
      throw other
  restore

/-- Shows a command before it runs, if that is asked for. -/
def trace (assignments : List (String × String)) (args : List String) : Act Unit := do
  if (← get).isOn 'x' then
    complain ("+ " ++ " ".intercalate (assignments.map (fun (n, v) => n ++ "=" ++ v) ++ args))

def withVariables (assignments : List (String × String)) (keeps : Bool) (body : Act Unit) :
    Act Unit := do
  let before ← get
  for (name, value) in assignments do
    Builtin.assign name value
    modify fun s => { s with exported := name :: s.exported }
  body
  if !keeps then
    for (name, _) in assignments do
      match before.bindings.lookup name with
      | some value => setVariable name value
      | none => dropVariable name
    if !assignments.isEmpty then
      modify fun s => { s with exported := before.exported }

mutual

def runText : Nat → String → Act Unit
  | 0, _ => throw .exhausted
  | depth + 1, text => eachLine (run depth) (text.length + 1) { rest := text.toList }

def contained : Nat → Script → Act Ending
  | 0, _ => throw .exhausted
  | depth + 1, script => isolated (finishing (runText depth) (run depth script))

/-- The output of a script as the text of a word, without the line ends that close it. -/
def output : Nat → Script → Act String
  | 0, _ => throw .exhausted
  | depth + 1, script => do
    let (ending, bytes) ← capturing (contained depth script)
    setStatus ending.status
    let bytes := bytes.filter (· ≠ 0)
    return Text.decodeLossy (bytes.reverse.dropWhile (· = 10)).reverse

/-- A shell from its start, with the variables that it is given and the channels as they are. -/
def shellBody : Nat → String → Invocation → Act Unit
  | 0, _, _ => throw .exhausted
  | depth + 1, name, invocation => do
    modify fun s => { s with
      name, owner := s.process, args := [], functions := [], locals := none, lastJob := none
      bindings := ("PPID", toString (s.ancestors.headD 1))
        :: s.bindings.filter fun b => s.exported.contains b.1
      fixed := [], status := 0, line := 1, context := "", loops := 0, tested := false
      switches := invocation.switches }
    let start (name : String) (args : List String) (text : String) : Act Unit := do
      modify fun s => { s with name, args }
      finishing (runText depth) (runText depth text)
    if let some c := invocation.unknown then
      modify fun s => { s with line := 0 }
      giveUp ("Illegal option -" ++ String.ofList [c])
    match invocation.isText, invocation.args with
    | true, script :: rest => start (rest.headD name) (rest.drop 1) script
    | true, [] =>
      modify fun s => { s with line := 0 }
      giveUp "-c requires an argument"
    | false, path :: rest =>
      match ← look path Files.read with
      | .ok bytes => start path rest (Text.decodeLossy bytes)
      | .error .isDirectory => return
      | .error e =>
        modify fun s => { s with line := 0 }
        let why := if e = .notFound then "No such file" else Utility.reason e
        giveUp ("cannot open " ++ path ++ ": " ++ why)
    | false, [] => do start name [] (Text.decodeLossy (← takeInput))

/-- Runs a program that is not part of the shell, if there is such a one. -/
def program : Nat → String → List String → Act (Option Ending)
  | 0, _, _ => throw .exhausted
  | depth + 1, name, args => do
    if !name.toList.contains '/' && !(← findsPrograms) then return none
    let tool := toolName name
    match utilities.lookup tool with
    | some utility => return some (.exited (← utility args))
    | none =>
      if isShell name then
        return some (← isolated (shellBody depth name (Invocation.ofArgs { args := [] } args)))
      let args := args.dropWhile (·.startsWith "-")
      let within (args : List String) (missing : String → String) : Act Ending := do
        match args with
        | [] => return .exited 0
        | inner :: rest =>
          match ← program depth inner rest with
          | some ending => return ending
          | none =>
            complain (missing inner)
            return .exited 127
      let failed (verb inner : String) : String :=
        tool ++ ": failed to " ++ verb ++ " " ++ inner ++ ": No such file or directory"
      match tool with
      | "env" =>
        let given := args.takeWhile (·.toList.contains '=')
        let body : Act Unit := do
          for arg in given do
            let (name, value) := Builtin.splitAssignment arg
            setVariable name (value.getD "")
            modify fun s => { s with exported := name :: s.exported }
          let ending ← within (args.drop given.length)
            fun inner => "env: '" ++ inner ++ "': No such file or directory"
          setStatus ending.status
        return some (← isolated body)
      | "nohup" => return some (← within args fun inner => failed "run command" ("'" ++ inner ++ "'"))
      | "setsid" => return some (← escaping none (within args (failed "execute")))
      | "timeout" =>
        match Utility.nanoseconds? (args.headD "") with
        | some nanos =>
          return some (← timed nanos (within (args.drop 1)
            fun inner => failed "run command" ("'" ++ inner ++ "'")))
        | none =>
          complain ("timeout: invalid time interval '" ++ args.headD "" ++ "'")
          return some (.exited 125)
      | _ => return none

/-- A command with its arguments: a function, something the shell does itself, or a program. -/
def perform : Nat → Bool → List String → Act Unit
  | 0, _, _ => throw .exhausted
  | _, _, [] => return
  | depth + 1, allowsFunctions, name :: args => do
    let s ← get
    match (if allowsFunctions then s.functions.lookup name else none) with
    | some body => calling args (run depth body)
    | none =>
      match name, args with
      | "eval", _ =>
        setStatus 0
        onBehalf "eval" (runText depth (" ".intercalate args))
      | ".", [] => setStatus 0
      | ".", path :: _ =>
        match ← look path Files.read with
        | .ok bytes =>
          setStatus 0
          let source := onBehalf path (runText depth (Text.decodeLossy bytes))
          tryCatch source fun flow => match flow with
            | .back status => setStatus status
            | other => throw other
        | .error _ =>
          if path.toList.contains '/' then
            Builtin.abandon "." ("cannot open " ++ path ++ ": No such file")
          else Builtin.abandon "." (path ++ ": not found")
      | "exec", [] => setStatus 0
      | "exec", inner :: rest =>
        modify fun s => { s with traps := s.traps.filter (·.2 = "") }
        match ← program depth inner rest with
        | some (.exited status) => throw (.ended status)
        | some (.died signal) => throw (.died signal)
        | none =>
          complainHere ("exec: " ++ inner ++ ": not found")
          throw (.ended 127)
      | "command", "-v" :: names => setStatus (← locate names)
      | "command", "-V" :: names | "type", names => setStatus (← type names)
      | "command", inner => perform depth false inner
      | _, _ =>
        match builtins.lookup name with
        | some builtin => setStatus (← builtin args)
        | none =>
          match ← program depth name args with
          | some ending =>
            setStatus ending.status
            mourn ending
          | none =>
            if name.toList.contains '/' && (← look name fun fs p => (fs.find p).isOk) then
              protest (name ++ ": Permission denied")
              setStatus 126
            else
              protest (name ++ ": not found")
              setStatus 127

def run : Nat → Script → Act Unit
  | 0, _ => throw .exhausted
  | depth + 1, script => do
    step
    let result := output depth
    let conclude : Act Unit := do
      deliver (runText depth)
      checkStatus
    match script with
    | .nothing => return
    | .simple line assignments words redirections =>
      modify fun s => { s with line }
      let args ← wordTexts result words
      let values : Act (List (String × String)) := assignments.mapM fun (name, word) => do
        return (name, ← Word.text result word)
      match args with
      | [] =>
        if !assignments.any fun (_, word) => Word.runsScript word then setStatus 0
        redirected result redirections false do
          for (name, word) in assignments do
            let value ← Word.text result word
            trace [(name, value)] []
            Builtin.assign name value
      | ["exec"] =>
        match ← redirect result redirections with
        | some message => giveUp message
        | none => setStatus 0
      | name :: _ =>
        let isSpecial := Reading.specialCommands.contains name
        redirected result redirections isSpecial do
          let values ← values
          trace values args
          withVariables values isSpecial (perform depth true args)
      conclude
    | .pipeline negated parts =>
      let body : Act Unit := match parts with
        | [only] => run depth only
        | _ => do
          let ending ← (stages (fun part => finishing (runText depth) (run depth part)) parts :
            State → Except Flow Ending × State)
          setStatus ending.status
          mourn ending
      if negated then
        testing body
        setStatus (if ← succeeded then 1 else 0)
        deliver (runText depth)
      else
        body
        conclude
    | .both first second =>
      testing (run depth first)
      if ← succeeded then run depth second
    | .either first second =>
      testing (run depth first)
      if !(← succeeded) then run depth second
    | .sequence first second =>
      run depth first
      run depth second
    | .background body =>
      let inner := match body with
        | .subshell inner => inner
        | other => other
      beside (finishing (runText depth) (run depth inner))
      conclude
    | .subshell body =>
      let ending ← contained depth body
      setStatus ending.status
      mourn ending
      conclude
    | .redirected body redirections =>
      redirected result redirections false (run depth body)
      conclude
    | .conditional condition body otherwise =>
      testing (run depth condition)
      if ← succeeded then run depth body
      else
        setStatus 0
        run depth otherwise
    | .loop wanted condition body => Act.loop wanted (run depth condition) (run depth body)
    | .each name words body =>
      let args ← match words with
        | some words => wordTexts result words
        | none => pure (← get).args
      setStatus 0
      inLoop (Act.each (fun arg => do Builtin.assign name arg; run depth body) args)
    | .select subject arms =>
      let text ← Word.text result subject
      setStatus 0
      chooseArm depth text.toList arms
    | .define name body =>
      modify fun s => { s with functions := (name, body) :: s.functions.filter (·.1 ≠ name) }
      setStatus 0

def chooseArm : Nat → List Char → List (List Word × Script) → Act Unit
  | 0, _, _ => throw .exhausted
  | _, _, [] => return
  | depth + 1, text, (patterns, body) :: rest => do
    let tokens ← patterns.mapM fun p => Word.pattern (output depth) p
    if tokens.any fun t => Token.matchesAll t text then run depth body
    else chooseArm depth text rest

end

end Reanalysis.Shell
