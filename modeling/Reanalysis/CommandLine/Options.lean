/-!
# Options

How the arguments of a command are taken apart. An option is given by its full name, with its value
after an equals sign or as the next argument, and at most once. Arguments are read from left to
right, and the first that settles the matter does: a mistake, or a question for help or the version.
-/

namespace Reanalysis.CommandLine

inductive Takes where
  | nothing
  | value (check : String → Bool)

structure Choice where
  name : String
  takes : Takes
  required : Bool := false
  help : String
  /-- The only values there are, if they are few. -/
  values : List String := []

/-- Why reading ends before its time. -/
inductive Stop where
  | misuse
  | help
  | version
deriving DecidableEq, Repr

abbrev Given := List (String × String)

def shortStop (versioned : Bool) : List Char → Stop
  | 'h' :: _ => .help
  | 'V' :: _ => if versioned then .version else .misuse
  | _ => .misuse

def splitLong (body : List Char) : String × Option String :=
  match body.span (· ≠ '=') with
  | (name, []) => (String.ofList name, none)
  | (name, _ :: value) => (String.ofList name, some (String.ofList value))

def asksForHelp (versioned : Bool) (name : String) : Option Stop :=
  if name = "help" then some .help
  else if name = "version" && versioned then some .version
  else none

/-- Whether an argument can be the value of the option before it. -/
def canBeValue (arg : String) : Bool := !arg.startsWith "-" || arg = "-"

inductive Role where
  | stop (stop : Stop)
  | close
  | given (name value : String)
  /-- An option whose value is the next argument. -/
  | awaits (choice : Choice)
  | plain

def roleOfLong (choices : List Choice) (versioned : Bool) (body : List Char) : Role :=
  let (name, attached) := splitLong body
  match asksForHelp versioned name, attached, choices.find? (·.name = name) with
  | some stop, none, _ => .stop stop
  | some _, some _, _ | none, _, none => .stop .misuse
  | none, attached, some choice =>
    match choice.takes, attached with
    | .nothing, none => .given name ""
    | .nothing, some _ => .stop .misuse
    | .value _, none => .awaits choice
    | .value check, some v => if check v then .given name v else .stop .misuse

def roleOf (choices : List Choice) (versioned : Bool) (arg : String) : Role :=
  match arg.toList with
  | ['-', '-'] => .close
  | '-' :: '-' :: body => roleOfLong choices versioned body
  | '-' :: c :: body => .stop (shortStop versioned (c :: body))
  | _ => .plain

def Choice.accepts (c : Choice) (value : String) : Bool :=
  match c.takes with
  | .nothing => false
  | .value check => canBeValue value && check value

/-- Reads options up to the first argument that is none, and gives the rest from there. -/
def readOptions (choices : List Choice) (versioned : Bool) :
    Option Choice → List String → Given → Except Stop (Given × List String)
  | none, [], given => .ok (given, [])
  | some _, [], _ => .error .misuse
  | some choice, arg :: rest, given =>
    if choice.accepts arg then readOptions choices versioned none rest ((choice.name, arg) :: given)
    else .error .misuse
  | none, arg :: rest, given =>
    match roleOf choices versioned arg with
    | .stop stop => .error stop
    | .close => if rest.isEmpty then .ok (given, []) else .error .misuse
    | .plain => .ok (given, arg :: rest)
    | .given name value =>
      if (given.lookup name).isSome then .error .misuse
      else readOptions choices versioned none rest ((name, value) :: given)
    | .awaits choice =>
      if (given.lookup choice.name).isSome then .error .misuse
      else readOptions choices versioned (some choice) rest given

def isComplete (choices : List Choice) (given : Given) : Bool :=
  choices.all fun c => !c.required || (given.lookup c.name).isSome

end Reanalysis.CommandLine
