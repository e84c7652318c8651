import Reanalysis.Shell.Source

/-!
# Words

How the words of a script are read: plain and quoted text, and what is expanded in it. Scripts
stand inside words and words inside scripts, so the rules are written over the rules for what
stands inside.

Part of the system that the harness runs on, and of no result: see `Reanalysis.Shell.Launch`.
-/

namespace Reanalysis.Shell

structure Rules where
  /-- The commands of a script whose output is put in, up to what ends them. -/
  output : Reader Script
  /-- The same with the bracket that closes them. -/
  enclosed : Reader Script
  /-- A word up to the closing brace around it, quoted as what is around it is or not. -/
  braced : Bool → Reader Word

namespace Words

open Reader

def isBreak (c : Char) : Bool := c ∈ [' ', '\t', '\n', ';', '&', '|', '(', ')', '<', '>']

def isNameStart (c : Char) : Bool := c.isAlpha || c = '_'

def isNameChar (c : Char) : Bool := c.isAlphanum || c = '_'

def isSpecial (c : Char) : Bool := c.isDigit || c ∈ ['?', '#', '@', '*', '$', '!', '-']

def isName (s : String) : Bool :=
  match s.toList with
  | c :: rest => isNameStart c && rest.all isNameChar
  | [] => false

/-- Text parts that follow each other and are quoted alike are one. -/
def merged (parts : List Part) : Word :=
  parts.foldr (fun part rest => match part, rest with
    | .text cs p, .text ds q :: after =>
      if p == q then .text (cs ++ ds) p :: after else part :: rest
    | _, _ => part :: rest) []

/-! ## Parameters -/

def parameterName? : Reader (Option String) := do
  match ← next? with
  | none => return none
  | some c =>
    if isNameStart c then return some (String.ofList (← takeWhile isNameChar))
    else if c.isDigit then return some (String.ofList (← takeWhile Char.isDigit))
    else if isSpecial c then
      skip
      return some (String.ofList [c])
    else return none

/-- What follows the name inside braces, with the closing brace. -/
def change (rules : Rules) (quoted : Bool) : Reader Change := do
  let closed (made : Change) : Reader Change := do
    if !(← takes "\x7d") then fail (if quoted then .openQuote else .openBrace)
    return made
  let unknown : Reader Change := do
    let _ ← rules.braced quoted
    closed .unknown
  if ← takes "\x7d" then return .plain
  let colon ← takes ":"
  joinLines
  match ← next? with
  | some '-' => skip; closed (.default colon (← rules.braced quoted))
  | some '=' => skip; closed (.assign colon (← rules.braced quoted))
  | some '+' => skip; closed (.alternative colon (← rules.braced quoted))
  | some '?' => skip; closed (.require colon (← rules.braced quoted))
  | some '\x7d' => skip; unknown
  | some '%' =>
    if colon then unknown else
    skip
    let longest ← takes "%"
    closed (.trim true longest (← rules.braced false))
  | some '#' =>
    if colon then unknown else
    skip
    let longest ← takes "#"
    closed (.trim false longest (← rules.braced false))
  | _ => unknown

def bracedParameter (rules : Rules) (quoted : Bool) : Reader Part := do
  let rest := (← get).rest
  let asksLength : Bool := match rest with
    | '#' :: c :: more =>
      isNameChar c || (isSpecial c && more.head? = some '\x7d')
    | _ => false
  if asksLength then skip
  match ← parameterName? with
  | none =>
    let _ ← change rules quoted
    return .parameter "" .unknown quoted
  | some name =>
    if asksLength then
      match ← change rules quoted with
      | .plain => return .parameter name .length quoted
      | _ => return .parameter name .unknown quoted
    else return .parameter name (← change rules quoted) quoted

/-! ## Results of scripts -/

/-- The text between two backquotes, with its escapes taken away. -/
def backquoted (quoted : Bool) : Reader (List Char) :=
  loop (fun (done : List Char) => do
    match ← next? with
    | none => fail .openBackquote
    | some '\x60' => skip; return .inr done.reverse
    | some '\\' =>
      skip
      match ← next? with
      | none => fail .openBackquote
      | some '\n' => skip; return .inl done
      | some c =>
        skip
        let escaped := c = '\x60' || c = '\\' || c = '$' || (quoted && c = '"')
        return .inl (if escaped then c :: done else c :: '\\' :: done)
    | some c => skip; return .inl (c :: done)) []

/-- A backquoted script, after the opening one. -/
def backquotedScript (rules : Rules) (quoted : Bool) : Reader Part := do
  let inner ← backquoted quoted
  let here ← get
  match rules.output.run { rest := inner, line := here.line } with
  | .ok (script, _) => return .output script quoted
  | .error (line, fault) => throw (line, fault)

/-! ## Expansions -/

/-- What a dollar sign starts. Inside an arithmetic expansion, `expression` reads it. -/
def expansion (rules : Rules) (expression : Reader Word) (quoted : Bool) : Reader Part := do
  skip
  joinLines
  if ← takes "((" then return .arithmetic (← expression) quoted
  else if ← takes "(" then
    return .output (← rules.enclosed) quoted
  else if ← takes "\x7b" then
    joinLines
    bracedParameter rules quoted
  else
    match ← next? with
    | some c =>
      if c.isDigit then
        skip
        return .parameter (String.ofList [c]) .plain quoted
      else match ← parameterName? with
        | some name => return .parameter name .plain quoted
        | none => return .text ['$'] quoted
    | none => return .text ['$'] quoted

/-- An expression up to the two brackets that close it. -/
def expression (rules : Rules) (inner : Reader Word) : Reader Word := do
  let parts ← loop (fun ((depth, done) : Nat × List Part) => do
    match ← next? with
    | none => fail .openArithmetic
    | some '$' => return .inl (depth, (← expansion rules inner true) :: done)
    | some '\x60' => skip; return .inl (depth, (← backquotedScript rules true) :: done)
    | some '(' => skip; return .inl (depth + 1, .text ['('] true :: done)
    | some ')' =>
      if depth = 0 then
        if ← takes "))" then return .inr done.reverse
      skip
      return .inl (depth - 1, .text [')'] true :: done)
    | some '\\' =>
      skip
      match ← next? with
      | some '\n' => skip; return .inl (depth, done)
      | _ => return .inl (depth, .text ['\\'] true :: done)
    | some '"' => skip; return .inl (depth, done)
    | some c => skip; return .inl (depth, .text [c] true :: done)) (0, [])
  return merged parts

def expressions (rules : Rules) : Nat → Reader Word
  | 0 => fail .tooDeep
  | depth + 1 => expression rules (expressions rules depth)

def anyExpansion (rules : Rules) (quoted : Bool) : Reader Part :=
  expansion rules (expressions rules 20) quoted

/-! ## Quoted text -/

/-- An escape inside double quotes or a document: only some characters can be escaped. -/
def dullEscape (escapable : List Char) : Reader (List Part) := do
  skip
  match ← next? with
  | none => return [.text ['\\'] true]
  | some '\n' => skip; return []
  | some c =>
    skip
    return [.text (if escapable.contains c then [c] else ['\\', c]) true]

/-- The parts up to the closing double quote, the last first. -/
def doubleQuoted (rules : Rules) : Reader (List Part) :=
  loop (fun (done : List Part) => do
    match ← next? with
    | none => fail .openQuote
    | some '"' => skip; return .inr (if done.isEmpty then [.text [] true] else done)
    | some '$' => return .inl ((← anyExpansion rules true) :: done)
    | some '\x60' => skip; return .inl ((← backquotedScript rules true) :: done)
    | some '\\' => return .inl ((← dullEscape ['$', '\x60', '"', '\\']) ++ done)
    | some c => skip; return .inl (.text [c] true :: done)) []

def singleQuoted : Reader Part := do
  let inner ← loop (fun (done : List Char) => do
    match ← next? with
    | none => fail .openQuote
    | some '\'' => skip; return .inr done.reverse
    | some c => skip; return .inl (c :: done)) []
  return .text inner true

/-! ## Whole words -/

def word (rules : Rules) : Reader Word := do
  let parts ← loop (fun (done : List Part) => do
    match ← next? with
    | none => return .inr done.reverse
    | some c =>
      if isBreak c then return .inr done.reverse
      match c with
      | '\\' =>
        skip
        match ← next? with
        | none => return .inl (.text ['\\'] true :: done)
        | some '\n' => skip; return .inl done
        | some c => skip; return .inl (.text [c] true :: done)
      | '\'' => skip; return .inl ((← singleQuoted) :: done)
      | '"' => skip; return .inl ((← doubleQuoted rules) ++ done)
      | '$' => return .inl ((← anyExpansion rules false) :: done)
      | '\x60' => skip; return .inl ((← backquotedScript rules false) :: done)
      | c => skip; return .inl (.text [c] false :: done)) []
  return merged parts

/-- A word inside braces, where only the closing brace stops it. Inside double quotes, single ones
are plain characters. -/
def bracedWord (rules : Rules) (quoted : Bool) : Reader Word := do
  let parts ← loop (fun (done : List Part) => do
    match ← next? with
    | none => fail (if quoted then .openQuote else .openBrace)
    | some '\x7d' => return .inr done.reverse
    | some '\\' =>
      if quoted then
        return .inl ((← dullEscape ['$', '\x60', '"', '\\', '\x7d']) ++ done)
      skip
      match ← next? with
      | none => return .inl (.text ['\\'] true :: done)
      | some '\n' => skip; return .inl done
      | some c => skip; return .inl (.text [c] true :: done)
    | some '\'' =>
      skip
      return .inl ((← if quoted then pure (.text ['\''] true) else singleQuoted) :: done)
    | some '"' => skip; return .inl ((← doubleQuoted rules) ++ done)
    | some '$' => return .inl ((← anyExpansion rules quoted) :: done)
    | some '\x60' => skip; return .inl ((← backquotedScript rules quoted) :: done)
    | some c => skip; return .inl (.text [c] quoted :: done)) []
  return merged parts

/-! ## Documents -/

/-- A document, in which expansions are made as between double quotes. -/
def document (rules : Rules) : Reader Word := do
  let parts ← loop (fun (done : List Part) => do
    match ← next? with
    | none => return .inr done.reverse
    | some '$' => return .inl ((← anyExpansion rules true) :: done)
    | some '\x60' => skip; return .inl ((← backquotedScript rules true) :: done)
    | some '\\' => return .inl ((← dullEscape ['$', '\x60', '\\']) ++ done)
    | some c => skip; return .inl (.text [c] true :: done)) []
  return merged parts

def textLines : List Char → List (List Char)
  | [] => []
  | '\n' :: rest => ['\n'] :: textLines rest
  | c :: rest =>
    match textLines rest with
    | [] => [[c]]
    | line :: lines => (c :: line) :: lines

/-- Takes out of the text the lines that come after this one, up to the one that closes them. -/
def takeDocument (delimiter : List Char) (stripsTabs : Bool) : Reader (List Char) := do
  let s ← get
  let here := s.rest.takeWhile (· ≠ '\n')
  let following := textLines (s.rest.drop (here.length + 1))
  let stripped (line : List Char) : List Char :=
    if stripsTabs then line.dropWhile (· = '\t') else line
  let body := following.takeWhile fun line =>
    stripped line ≠ delimiter ++ ['\n'] && stripped line ≠ delimiter
  let after := (following.drop (body.length + 1)).flatten
  let taken := min following.length (body.length + 1)
  set { s with
    rest := here ++ (s.rest.drop here.length).take 1 ++ after
    skipped := s.skipped + taken }
  return (body.map stripped).flatten

/-- The characters of a word without regard to quotes, and whether there were any. -/
def delimiter (word : Word) : List Char × Bool :=
  (word.flatMap fun part => match part with
    | .text cs _ => cs
    | _ => [],
  word.any fun part => match part with
    | .text _ quoted => quoted
    | _ => true)

/-- The text of the document that a word closes. -/
def documentFor (rules : Rules) (closing : Word) (stripsTabs : Bool) : Reader Word := do
  let (mark, quoted) := delimiter closing
  let body ← takeDocument mark stripsTabs
  if quoted then return [.text body true]
  match (document rules).run { rest := body, line := (← get).line } with
  | .ok (word, _) => return word
  | .error (line, fault) => throw (line, fault)

end Words

end Reanalysis.Shell
