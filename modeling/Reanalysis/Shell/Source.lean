import Reanalysis.Shell.Script

/-!
# The text of a script

What is left to read of a script, with the line it is on, and the marks that the text is made of:
words, the signs between them, and the words of the language itself. A mark can be put back.

Part of the system that the harness runs on, and of no result: see `Reanalysis.Shell.Launch`.
-/

namespace Reanalysis.Shell

inductive Opening where
  | file (access : Access)
  | duplicate
  /-- A text that follows in the script; tabs at the start of its lines may not count. -/
  | document (stripsTabs : Bool)
deriving DecidableEq, Repr

inductive Mark where
  | endOfText
  | newline
  | semicolon
  | background
  | both
  | either
  | pipe
  | opening
  | closing
  | endOfArm
  | redirection (channel : Nat) (opening : Opening)
  | word (word : Word)
  | keyword (name : String)

namespace Mark

def keywords : List String :=
  ["!", "case", "do", "done", "elif", "else", "esac", "fi", "for", "if", "in", "then", "until",
    "while", "\x7b", "\x7d"]

def shown : Mark → String
  | endOfText => "end of file"
  | newline => "newline"
  | semicolon => "\";\""
  | background => "\"&\""
  | both => "\"&&\""
  | either => "\"||\""
  | pipe => "\"|\""
  | opening => "\"(\""
  | closing => "\")\""
  | endOfArm => "\";;\""
  | redirection _ _ => "redirection"
  | word _ => "word"
  | keyword name => "\"" ++ name ++ "\""

def isKeyword (m : Mark) (name : String) : Bool :=
  match m with
  | .keyword k => k = name
  | _ => false

/-- Whether commands cannot go on with it. -/
def endsCommands : Mark → Bool
  | .endOfText | .closing | .endOfArm => true
  | .keyword name => name ∈ ["do", "done", "elif", "else", "esac", "fi", "then", "\x7d"]
  | _ => false

end Mark

inductive SyntaxFault where
  | unexpected (found : Mark) (expected : Option String)
  | openQuote
  | openBrace
  | openArithmetic
  | openBackquote
  | loopVariable
  | functionName
  | channel
  | tooDeep

def SyntaxFault.message : SyntaxFault → String
  | .unexpected found none => found.shown ++ " unexpected"
  | .unexpected found (some wanted) => found.shown ++ " unexpected (expecting " ++ wanted ++ ")"
  | .openQuote => "Unterminated quoted string"
  | .openBrace => "Missing '\x7d'"
  | .openArithmetic => "Missing '))'"
  | .openBackquote => "EOF in backquote substitution"
  | .loopVariable => "Bad for loop variable"
  | .functionName => "Bad function name"
  | .channel => "Bad fd number"
  | .tooDeep => "too deep"

structure Source where
  rest : List Char
  line : Nat := 1
  /-- Lines after this one that have been taken out of the text. -/
  skipped : Nat := 0
  /-- A mark that was put back. -/
  pushed : Option Mark := none

/-- A reader takes text off a source. A fault comes with the line on which it was found. -/
abbrev Reader := StateT Source (Except (Nat × SyntaxFault))

namespace Reader

variable {α : Type}

def fail (fault : SyntaxFault) : Reader α := do throw ((← get).line, fault)

def next? : Reader (Option Char) := return (← get).rest.head?

def skip : Reader Unit := modify fun s =>
  match s.rest with
  | [] => s
  | '\n' :: rest => { s with rest, line := s.line + 1 + s.skipped, skipped := 0 }
  | _ :: rest => { s with rest }

def takes (text : String) : Reader Bool := do
  if text.toList.isPrefixOf (← get).rest then
    text.toList.forM fun _ => skip
    return true
  return false

def joinLines : Reader Unit := do
  let rec go : Nat → Reader Unit
    | 0 => return
    | fuel + 1 => do if ← takes "\\\n" then go fuel
  go (← get).rest.length

/-- Takes the longest run of characters with a property, over escaped line ends. -/
def takeWhile (p : Char → Bool) : Reader (List Char) := do
  let rec go : Nat → List Char → Reader (List Char)
    | 0, done => return done.reverse
    | fuel + 1, done => do
      joinLines
      match ← next? with
      | some c => if p c then skip; go fuel (c :: done) else return done.reverse
      | none => return done.reverse
  go (← get).rest.length []

/-- Repeats a step until it gives a result; `fuel` bounds the steps. -/
def loopFrom {σ : Type} (step : σ → Reader (σ ⊕ α)) : Nat → σ → Reader α
  | 0, _ => fail .tooDeep
  | fuel + 1, state => do
    match ← step state with
    | .inl next => loopFrom step fuel next
    | .inr a => return a

/-- Every step but the last has to take something. -/
def loop {σ : Type} (step : σ → Reader (σ ⊕ α)) (state : σ) : Reader α := do
  loopFrom step ((← get).rest.length + 2) state

def putBack (m : Mark) : Reader Unit := modify fun s => { s with pushed := some m }

end Reader

end Reanalysis.Shell
