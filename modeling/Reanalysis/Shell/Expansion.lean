import Reanalysis.Shell.Arithmetic
import Reanalysis.Shell.Pattern
import Reanalysis.Shell.State

/-!
# Expansion

From the words of a script to the texts that commands see: parameters and results are put in,
what is not quoted is split at separators, and patterns become the names that they match.

Part of the system that the harness runs on, and of no result: see `Reanalysis.Shell.Launch`.
-/

namespace Reanalysis.Shell

namespace Expansion

inductive Piece where
  | char (c : Char) (quoted : Bool)
  /-- Quotes were here: the word stays, even if it is empty. -/
  | quotes
  /-- A separator that was not quoted. -/
  | gap (c : Char)

/-- The order in which the switches that are on are listed. -/
def switchOrder : List Char := "upbaCEVvxsnmiIfe".toList

def value? (name : String) : Act (Option String) := do
  let s ← get
  match name with
  | "?" => return some (toString s.status)
  | "#" => return some (toString s.args.length)
  | "$" => return some (toString s.owner)
  | "!" => return s.lastJob.map toString
  | "-" => return some (String.ofList (switchOrder.filter s.isOn))
  | "0" => return some s.name
  | "@" | "*" => return if s.args.isEmpty then none else some (" ".intercalate s.args)
  | _ =>
    if name.toList.all Char.isDigit then return s.args[Escape.digits name.toList - 1]?
    else Act.held? name

def separators : Act (List Char) := return ((← Act.held? "IFS").getD " \t\n").toList

def spread (quoted : Bool) (value : String) : Act (List Piece) := do
  if quoted then return .quotes :: value.toList.map (.char · true)
  let separators ← separators
  return value.toList.map fun c => if separators.contains c then .gap c else .char c false

/-- Makes separators of the characters of a word that stand where it is split. -/
def loosened (pieces : List Piece) : Act (List Piece) := do
  let separators ← separators
  return pieces.map fun p => match p with
    | .char c false => if separators.contains c then .gap c else p
    | _ => p

/-- The arguments as so many words. -/
def spreadArgs (quoted : Bool) : List String → Act (List Piece)
  | [] => return []
  | [arg] => spread quoted arg
  | arg :: rest => do
    let first ← spread quoted arg
    return first ++ .gap ' ' :: (← spreadArgs quoted rest)

def chars (ps : List Piece) : List Marked :=
  ps.filterMap fun p => match p with
    | .char c quoted => some (c, quoted)
    | .quotes => none
    | .gap c => some (c, false)

def text (ps : List Piece) : String := String.ofList ((chars ps).map (·.1))

/-- A parameter with what is to be done with its value; `inner` expands the words inside. -/
def parameter (inner : Word → Act (List Piece)) (name : String) (change : Change) (quoted : Bool) :
    Act (List Piece) := do
  let value ← value? name
  let isMissing (colon : Bool) : Bool := match value with
    | none => true
    | some v => colon && v = ""
  let given := value.getD ""
  let insist : Act Unit := do
    if value.isNone && (← get).isOn 'u' && name ≠ "@" && name ≠ "*" then
      Act.giveUp (name ++ ": parameter not set")
  let asIs : Act (List Piece) := do
    let s ← get
    if name = "@" || (name = "*" && !quoted) then spreadArgs quoted s.args
    else if name = "*" then
      let joint := match ← Act.held? "IFS" with
        | some ifs => String.ofList (ifs.toList.take 1)
        | none => " "
      spread quoted (joint.intercalate s.args)
    else spread quoted given
  let put (word : Word) : Act (List Piece) := do
    let pieces ← inner word
    if quoted then return pieces else loosened pieces
  match change with
  | .plain => insist; asIs
  | .length => insist; spread quoted (toString given.utf8ByteSize)
  | .default colon word => if isMissing colon then put word else asIs
  | .alternative colon word =>
    if isMissing colon then return if quoted then [.quotes] else [] else put word
  | .assign colon word =>
    if isMissing colon then
      let given := text (← inner word)
      Act.setVariable name given
      spread quoted given
    else asIs
  | .require colon word =>
    if isMissing colon then
      let why := text (← inner word)
      let usual := if colon then "parameter not set or null" else "parameter not set"
      Act.giveUp (name ++ ": " ++ (if why = "" then usual else why))
    else asIs
  | .trim fromEnd longest pattern =>
    insist
    let tokens := Token.ofChars (chars (← inner pattern))
    spread quoted (String.ofList (Token.trim fromEnd longest tokens given.toList))
  | .unknown => Act.giveUp "Bad substitution"

def arithmetic (source : String) : Act String := do
  match Arithmetic.eval (← get).bindings source with
  | .ok (n, bindings) =>
    modify fun s => { s with bindings }
    return toString n
  | .error fault =>
    let about (what : String) : String :=
      "arithmetic expression: " ++ what ++ ": \"" ++ source ++ "\""
    Act.giveUp (match fault with
      | .expected what => about ("expecting " ++ what)
      | .divisionByZero => about "division by zero"
      | .notNumber text => "Illegal number: " ++ text)

/-- Expands the parts of a word. `result` runs the scripts in it; `depth` bounds how deep words
stand in words. -/
def pieces (result : Script → Act String) : Nat → Word → Act (List Piece)
  | 0, _ => throw .exhausted
  | depth + 1, parts => do
    let expanded ← parts.mapM fun part => match part with
      | .text cs quoted => return (if quoted then [.quotes] else []) ++ cs.map (.char · quoted)
      | .parameter name change quoted => parameter (pieces result depth) name change quoted
      | .arithmetic expression quoted => do
        spread quoted (← arithmetic (text (← pieces result depth expression)))
      | .output script quoted => do spread quoted (← result script)
    return expanded.flatten

def depth : Nat := 50

/-! ## Fields -/

structure Splitting where
  /-- The last word first, its characters backwards. -/
  done : List (List Marked) := []
  current : Option (List Marked) := none
  /-- Whether a separator that is no blank has come since the last word. -/
  divided : Bool := false

namespace Splitting

def add (s : Splitting) (cs : List Marked) : Splitting :=
  { s with current := some (cs ++ s.current.getD []), divided := false }

/-- Blanks end a word. Every other separator does too, and with none before it an empty one. -/
def separate (s : Splitting) (c : Char) : Splitting :=
  let isBlank := c = ' ' || c = '\t' || c = '\n'
  match s.current with
  | some word => { done := word :: s.done, current := none, divided := !isBlank }
  | none =>
    if isBlank then s
    else if s.divided || s.done.isEmpty then { s with done := [] :: s.done, divided := true }
    else { s with divided := true }

end Splitting

/-- The words that the gaps leave, a word of nothing only where there were quotes. -/
def fields (ps : List Piece) : List (List Marked) :=
  let s := ps.foldl (fun (s : Splitting) p => match p with
    | .char c quoted => s.add [(c, quoted)]
    | .quotes => s.add []
    | .gap c => s.separate c) {}
  (s.current.toList ++ s.done).reverse.map List.reverse

/-! ## Names that match -/

/-- The names in a directory that match, in order. A name that starts with a dot is only matched
by a dot. -/
def matching (directory : String) (part : List Marked) : Act (List String) := do
  let tokens := Token.ofChars part
  let names := (← Act.look (if directory = "" then "." else directory) Files.children).map (·.1)
  let found := ("." :: ".." :: names).filter fun n =>
    Token.matchesAll tokens n.toList && (!n.startsWith "." || tokens.head? = some (.exactly '.'))
  return found.mergeSort fun a b => a ≤ b

def splitSlashes (cs : List Marked) : List (List Marked) :=
  cs.foldr (fun c parts => match parts with
    | [] => [[c]]
    | first :: rest => if c.1 = '/' then [] :: first :: rest else (c :: first) :: rest) [[]]

/-- Goes down one part of a pattern after the other. -/
def descend : List String → List (List Marked) → Act (List String)
  | starts, [] => return starts
  | starts, part :: rest => do
    let slash := if rest.isEmpty then "" else "/"
    let next ← if Token.isPattern part then do
        let found ← starts.mapM fun start => do
          return (← matching start part).map fun name => start ++ name ++ slash
        pure found.flatten
      else pure (starts.map fun start => start ++ String.ofList (part.map (·.1)) ++ slash)
    let kept ← next.filterM fun p =>
      Act.look (if p = "" then "." else p) fun fs q => (fs.find q).isOk
    descend kept rest

/-- The names for a field: those that it matches as a pattern, or the field itself. -/
def names (field : List Marked) : Act (List String) := do
  let literal := String.ofList (field.map (·.1))
  if (← get).isOn 'f' || !Token.isPattern field then return [literal]
  let found ← descend [""] (splitSlashes field)
  return if found.isEmpty then [literal] else found

end Expansion

open Expansion

/-- A tilde at the start of a word is the home directory. -/
def Word.withHome (word : Word) : Act Word := do
  match word with
  | .text ('~' :: cs) false :: rest =>
    if cs.head? = some '/' || (cs.isEmpty && rest.isEmpty) then
      match ← Act.held? "HOME" with
      | some home =>
        let tail : List Part := if cs.isEmpty then [] else [.text cs false]
        return .text home.toList true :: (tail ++ rest)
      | none => return word
    else return word
  | _ => return word

def Word.runsScript (word : Word) : Bool :=
  word.any fun part => match part with
    | .output _ _ => true
    | _ => false

/-- A word where only one text can stand. -/
def Word.text (result : Script → Act String) (word : Word) : Act String := do
  return Expansion.text (← pieces result depth (← word.withHome))

def Word.pattern (result : Script → Act String) (word : Word) : Act (List Token) := do
  return Token.ofChars (chars (← pieces result depth word))

/-- The texts that the words of a command become. -/
def wordTexts (result : Script → Act String) (words : List Word) : Act (List String) := do
  let expanded ← words.mapM fun word => do
    let found ← (fields (← pieces result depth (← word.withHome))).mapM names
    return found.flatten
  return expanded.flatten

end Reanalysis.Shell
