import Reanalysis.Shell.Utility

/-!
# Conditions

What scripts test: texts, whole numbers and files, joined by connectives. An argument that looks
like an operator is one only where what follows it allows that.

Part of the system that the harness runs on, and of no result: see `Reanalysis.Shell.Launch`.
-/

namespace Reanalysis.Shell.Condition

inductive Fault where
  | notNumber (s : String)
  | unexpected (s : String)
  /-- An operator without what it is about. -/
  | argument (operator : String)
  | openBracket

def Fault.message : Fault → String
  | .notNumber s => "Illegal number: " ++ s
  | .unexpected "" => "unexpected operator"
  | .unexpected s => s ++ ": unexpected operator"
  | .argument op => op ++ ": argument expected"
  | .openBracket => "closing paren expected"

/-- Tests look at files, and may fail. -/
abbrev Test := ExceptT Fault Act

def number (s : String) : Except Fault Int :=
  match Escape.int? (String.ofList (s.toList.reverse.dropWhile (· = ' ')).reverse) with
  | some n => .ok n
  | none => .error (.notNumber s)

def unaryOperators : List String :=
  ["-r", "-w", "-x", "-e", "-f", "-d", "-c", "-b", "-p", "-u", "-g", "-k", "-s", "-t", "-z", "-n",
    "-h", "-O", "-G", "-L", "-S"]

def compare? (op : String) : Option (Int → Int → Bool) :=
  match op with
  | "-eq" => some fun a b => a = b
  | "-ne" => some fun a b => a ≠ b
  | "-lt" => some fun a b => a < b
  | "-le" => some fun a b => a ≤ b
  | "-gt" => some fun a b => b < a
  | "-ge" => some fun a b => b ≤ a
  | _ => none

def isBinary (op : String) : Bool :=
  op ∈ ["=", "==", "!=", "<", ">", "-nt", "-ot", "-ef"] || (compare? op).isSome

def systemDirectories : List String :=
  ["/", "/bin", "/dev", "/etc", "/home", "/proc", "/root", "/tmp", "/usr", "/usr/bin", "/var"]

def isProgram (path : String) : Bool :=
  ["/bin/", "/usr/bin/"].any fun dir =>
    path.startsWith dir
      && ((utilities.lookup (path.drop dir.length).copy).isSome
        || (path.drop dir.length).copy ∈ ["sh", "dash", "bash"])

def ofFile (arg : String) (test : Files → Files.Location → Bool) : Test Bool :=
  ExceptT.lift (Act.look arg test)

def unary (op arg : String) : Test Bool :=
  match op with
  | "-n" => return arg ≠ ""
  | "-z" => return arg = ""
  | "-f" => ofFile arg fun fs p => fs.isFile p || isProgram p
  | "-d" => ofFile arg fun fs p => fs.isDirectory p || systemDirectories.contains p
  | "-x" => ofFile arg fun fs p =>
    fs.isDirectory p || systemDirectories.contains p || isProgram p
  | "-e" | "-r" | "-w" | "-O" | "-G" => ofFile arg fun fs p =>
    (fs.find p).isOk || systemDirectories.contains p || isProgram p || p = "/dev/null"
  | "-c" => return arg = "/dev/null"
  | "-s" => ofFile arg fun fs p => match fs.read p with
    | .ok b => !b.isEmpty
    | .error .isDirectory => true
    | .error _ => false
  | "-t" => do
    let _ ← number arg
    return false
  | _ => return false

def binary (a op b : String) : Test Bool :=
  match op with
  | "=" | "==" => return a = b
  | "!=" => return a ≠ b
  | "<" => return a < b
  | ">" => return b < a
  | _ => match compare? op with
    | some f => do return f (← number a) (← number b)
    | none => return false

/-- What an argument is where it stands, with those that follow it. -/
inductive Role where
  | nothing
  | negation
  | opening
  | closing
  | both
  | either
  | unary
  | binary
  | operand
deriving DecidableEq, Repr

def role : List String → Role
  | [] => .nothing
  | op :: rest =>
    if op = "!" then .negation
    else if op = "(" then if rest.isEmpty then .operand else .opening
    else if op = ")" then .closing
    else if op = "-a" then .both
    else if op = "-o" then .either
    else if isBinary op then .binary
    else if unaryOperators.contains op then
      match rest with
      | [] => .operand
      | [_] => .unary
      | next :: _ => if isBinary next then .operand else .unary
    else .operand

mutual

/-- A disjunction, and the arguments after it. `fuel` bounds the nesting. -/
def disjunction : Nat → List String → Test (Bool × List String)
  | 0, args => return (false, args)
  | fuel + 1, args => do
    let (first, rest) ← conjunction fuel args
    if role rest = .either then
      let (second, rest) ← disjunction fuel (rest.drop 1)
      return (first || second, rest)
    return (first, rest)

def conjunction : Nat → List String → Test (Bool × List String)
  | 0, args => return (false, args)
  | fuel + 1, args => do
    let (first, rest) ← negation fuel args
    if role rest = .both then
      let (second, rest) ← conjunction fuel (rest.drop 1)
      return (first && second, rest)
    return (first, rest)

def negation : Nat → List String → Test (Bool × List String)
  | 0, args => return (false, args)
  | fuel + 1, args => do
    if role args = .negation then
      let (verdict, rest) ← negation fuel (args.drop 1)
      return (!verdict, rest)
    primary fuel args

def primary : Nat → List String → Test (Bool × List String)
  | 0, args => return (false, args)
  | fuel + 1, args => do
    match role args, args with
    | .nothing, _ => return (false, [])
    | .opening, _ :: rest =>
      if role rest = .closing then return (false, rest.drop 1)
      let (verdict, rest) ← disjunction fuel rest
      if role rest ≠ .closing then throw .openBracket
      return (verdict, rest.drop 1)
    | .unary, op :: rest =>
      match rest with
      | arg :: rest => return (← unary op arg, rest)
      | [] => throw (.argument op)
    | _, a :: rest =>
      if role rest = .binary then
        match rest with
        | op :: b :: rest => return (← binary a op b, rest)
        | op :: [] => throw (.argument op)
        | [] => return (a ≠ "", [])
      return (a ≠ "", rest)
    | _, [] => return (false, [])

end

/-- A whole condition. With three or four arguments their number decides first. -/
def eval : Nat → List String → Test Bool
  | 0, _ => return false
  | fuel + 1, args =>
    let general (args : List String) : Test Bool := do
      let (verdict, rest) ← disjunction (4 * args.length + 4) args
      match rest with
      | [] => return verdict
      | _ => throw (.unexpected ((args.drop (args.length - rest.length - 1)).headD ""))
    match args with
    | [] => return false
    | [a, op, b] =>
      if isBinary op then binary a op b
      else if a = "(" && b = ")" then general [op]
      else if a = "!" then return !(← eval fuel [op, b])
      else general args
    | [a, b, c, d] =>
      if a = "(" && d = ")" then general [b, c]
      else if a = "!" then return !(← eval fuel [b, c, d])
      else general args
    | _ => general args

end Reanalysis.Shell.Condition
