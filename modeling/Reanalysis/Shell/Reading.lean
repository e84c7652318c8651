import Reanalysis.Shell.Words

/-!
# Reading scripts

From the text of a script to its commands. A script is read one line of commands at a time, since
what comes first is run before the rest is read.

Part of the system that the harness runs on, and of no result: see `Reanalysis.Shell.Launch`.
-/

namespace Reanalysis.Shell

namespace Reading

open Reader

/-! ## Marks -/

def skipBlanks : Reader Unit :=
  loop (fun () => do
    joinLines
    match ← next? with
    | some ' ' | some '\t' => skip; return .inl ()
    | _ => return .inr ()) ()

def skipComment : Reader Unit := do
  if (← next?) = some '#' then
    loop (fun () => do
      match ← next? with
      | none | some '\n' => return .inr ()
      | some _ => skip; return .inl ()) ()

def redirectionMark (channel : Option Nat) : Reader Mark := do
  if ← takes ">" then
    let channel := channel.getD 1
    if ← takes ">" then return .redirection channel (.file .append)
    else if ← takes "&" then return .redirection channel .duplicate
    else
      let _ ← takes "|"
      return .redirection channel (.file .write)
  else
    let _ ← takes "<"
    let channel := channel.getD 0
    if ← takes "<" then return .redirection channel (.document (← takes "-"))
    else if ← takes "&" then return .redirection channel .duplicate
    else if ← takes ">" then return .redirection channel (.file .update)
    else return .redirection channel (.file .read)

/-- A word, or the channel of a redirection that follows it at once. -/
def wordMark (rules : Rules) : Reader Mark := do
  let word ← Words.word rules
  let redirects : Bool := match ← next? with
    | some c => c = '<' || c = '>'
    | none => false
  if redirects then
    match word with
    | [] => return ← redirectionMark none
    | [.text [c] false] => if c.isDigit then return ← redirectionMark (some (c.toNat - 48))
    | _ => pure ()
  return .word word

def rawMark (rules : Rules) : Reader Mark := do
  skipBlanks
  skipComment
  match ← next? with
  | none => return .endOfText
  | some '\n' => skip; return .newline
  | some '&' => skip; joinLines; return if ← takes "&" then .both else .background
  | some '|' => skip; joinLines; return if ← takes "|" then .either else .pipe
  | some ';' => skip; joinLines; return if ← takes ";" then .endOfArm else .semicolon
  | some '(' => skip; return .opening
  | some ')' => skip; return .closing
  | some _ => wordMark rules

/-- The mark that was put back, or the next one. -/
def anyMark (rules : Rules) : Reader Mark := do
  match (← get).pushed with
  | some m => modify fun s => { s with pushed := none }; return m
  | none => rawMark rules

/-- The next mark, over line ends if they do not count, with the words of the language told from
the others if they can stand here. -/
def mark (rules : Rules) (overLines keywords : Bool) : Reader Mark := do
  let first ← anyMark rules
  let found ← loop (fun (m : Mark) => do
    match m with
    | .newline => if overLines then return .inl (← rawMark rules) else return .inr m
    | _ => return .inr m) first
  match found with
  | .word word =>
    match word.bare? with
    | some s => return if keywords && Mark.keywords.contains s then .keyword s else found
    | none => return found
  | _ => return found

def unexpected {α : Type} (found : Mark) (expected : Option String) : Reader α :=
  fail (.unexpected found expected)

/-- A word of the language that has to come now. -/
def keyword (rules : Rules) (overLines : Bool) (name : String) : Reader Unit := do
  let m ← mark rules overLines true
  if !m.isKeyword name then unexpected m (some (Mark.keyword name).shown)

/-! ## Redirections -/

def redirection (rules : Rules) (channel : Nat) (opening : Opening) : Reader Redirection := do
  match ← mark rules false false with
  | .word target =>
    match opening with
    | .file access => return .file channel access target
    | .duplicate =>
      match target.bare? with
      | some s =>
        if s ≠ "-" && !(s.length = 1 && s.toList.all Char.isDigit) then fail .channel
      | none => pure ()
      return .duplicate channel target
    | .document stripsTabs =>
      return .document channel (← Words.documentFor rules target stripsTabs)
  | m => unexpected m none

def redirections (rules : Rules) : Reader (List Redirection) :=
  loop (fun (done : List Redirection) => do
    match ← mark rules false true with
    | .redirection channel opening =>
      return .inl (done ++ [← redirection rules channel opening])
    | m =>
      putBack m
      return .inr done) []

/-! ## Simple commands -/

structure Simple where
  assignments : List (String × Word) := []
  words : List Word := []
  redirections : List Redirection := []

def assignment? : Word → Option (String × Word)
  | .text cs false :: rest =>
    match cs.span (· ≠ '=') with
    | (name, _ :: value) =>
      if Words.isName (String.ofList name) then
        some (String.ofList name, if value.isEmpty then rest else .text value false :: rest)
      else none
    | _ => none
  | _ => none

/-- The commands that a script cannot define anew. -/
def specialCommands : List String :=
  [":", ".", "break", "continue", "eval", "exec", "exit", "export", "readonly", "return", "set",
    "shift", "times", "trap", "unset"]

/-- A command made of words, or the definition of a function. -/
def simple (rules : Rules) (command : Reader Script) : Reader Script := do
  let line := (← get).line
  loop (fun (found : Simple) => do
    let finished (m : Mark) : Reader (Simple ⊕ Script) := do
      putBack m
      return .inr (.simple line found.assignments found.words found.redirections)
    match ← mark rules false false with
    | .word word =>
      match (if found.words.isEmpty then assignment? word else none) with
      | some pair => return .inl { found with assignments := found.assignments ++ [pair] }
      | none => return .inl { found with words := found.words ++ [word] }
    | .redirection channel opening =>
      let r ← redirection rules channel opening
      return .inl { found with redirections := found.redirections ++ [r] }
    | .opening =>
      match found with
      | ⟨[], [name], []⟩ =>
        match ← mark rules false false with
        | .closing => pure ()
        | m => unexpected m (some Mark.closing.shown)
        let name := (name.bare?).getD ""
        if !Words.isName name || specialCommands.contains name then fail .functionName
        putBack (← mark rules true true)
        return .inr (.define name (← command))
      | _ => finished .opening
    | m => finished m) {}

/-! ## Lists of commands -/

inductive Extent where
  | line
  /-- To a mark that ends it. There has to be a command. -/
  | body
  /-- To a mark that ends it. There need not be a command. -/
  | output
deriving DecidableEq, Repr

def list (rules : Rules) (item : Reader Script) (extent : Extent) : Reader Script :=
  let overLines := extent ≠ .line
  loop (fun ((done, mayEnd) : Script × Bool) => do
    match ← mark rules overLines true with
    | .newline => return .inr done
    | .endOfText =>
      putBack .endOfText
      return .inr done
    | first =>
      putBack first
      if mayEnd && overLines && first.endsCommands then return .inr done
      let next ← item
      match ← mark rules false false with
      | .newline => putBack .newline; return .inl (.sequence done next, true)
      | .endOfText => putBack .endOfText; return .inl (.sequence done next, true)
      | .background => return .inl (.sequence done (.background next), true)
      | .semicolon => return .inl (.sequence done next, true)
      | m =>
        if extent = .line then unexpected m none
        putBack m
        return .inr (.sequence done next)) (Script.nothing, extent == .output)

def pipeline (rules : Rules) (command : Reader Script) : Reader Script := do
  let first ← mark rules false true
  let negated := first.isKeyword "!"
  if !negated then putBack first
  else putBack (← mark rules false true)
  let first ← command
  let stages ← loop (fun (done : List Script) => do
    match ← mark rules false false with
    | .pipe =>
      putBack (← mark rules true true)
      return .inl (done ++ [← command])
    | m =>
      putBack m
      return .inr done) [first]
  return if negated || stages.length > 1 then .pipeline negated stages else first

def andOr (rules : Rules) (command : Reader Script) : Reader Script := do
  loop (fun (first : Script) => do
    let more (join : Script → Script → Script) : Reader (Script ⊕ Script) := do
      putBack (← mark rules true true)
      return .inl (join first (← pipeline rules command))
    match ← mark rules false false with
    | .both => more .both
    | .either => more .either
    | m =>
      putBack m
      return .inr first) (← pipeline rules command)

/-! ## Compound commands -/

/-- The rest of a conditional after its first word; `fuel` bounds its branches. -/
def conditional (rules : Rules) (body : Reader Script) : Nat → Reader Script
  | 0 => fail .tooDeep
  | fuel + 1 => do
    let condition ← body
    keyword rules false "then"
    let chosen ← body
    match ← mark rules false true with
    | .keyword "elif" => return .conditional condition chosen (← conditional rules body fuel)
    | .keyword "else" =>
      let otherwise ← body
      keyword rules false "fi"
      return .conditional condition chosen otherwise
    | m =>
      putBack m
      keyword rules false "fi"
      return .conditional condition chosen .nothing

def doneBody (rules : Rules) (overLines : Bool) (body : Reader Script) : Reader Script := do
  keyword rules overLines "do"
  let inner ← body
  keyword rules false "done"
  return inner

def each (rules : Rules) (body : Reader Script) : Reader Script := do
  let name ← match ← mark rules false false with
    | .word word => pure ((word.bare?).getD "")
    | _ => pure ""
  if !Words.isName name then fail .loopVariable
  match ← mark rules true true with
  | .keyword "in" =>
    let words ← loop (fun (done : List Word) => do
      match ← mark rules false false with
      | .word word => return .inl (done ++ [word])
      | .newline | .semicolon => return .inr done
      | m => unexpected m none) []
    return .each name (some words) (← doneBody rules true body)
  | .semicolon => return .each name none (← doneBody rules true body)
  | m =>
    putBack m
    return .each name none (← doneBody rules true body)

/-- The patterns of one arm, the first of which has been read. -/
def patterns (rules : Rules) (first : Mark) : Reader (List Word) :=
  let asWord : Mark → Reader Word
    | .word word => return word
    | .keyword name => return [.text name.toList false]
    | m => unexpected m (some (Mark.word []).shown)
  loop (fun ((done, next) : List Word × Mark) => do
    let word ← asWord next
    match ← mark rules false false with
    | .pipe => return .inl (done ++ [word], ← mark rules false false)
    | .closing => return .inr (done ++ [word])
    | m => unexpected m (some Mark.closing.shown)) ([], first)

def select (rules : Rules) (armBody : Reader Script) : Reader Script := do
  let subject ← match ← mark rules false false with
    | .word word => pure word
    | m => unexpected m (some (Mark.word []).shown)
  keyword rules true "in"
  loop (fun (arms : List (List Word × Script)) => do
    match ← mark rules true true with
    | .keyword "esac" => return .inr (.select subject arms)
    | first =>
      let first ← match first with
        | .opening => mark rules false false
        | m => pure m
      let words ← patterns rules first
      let body ← armBody
      let arms := arms ++ [(words, body)]
      match ← mark rules true true with
      | .keyword "esac" => return .inr (.select subject arms)
      | .endOfArm => return .inl arms
      | m => unexpected m (some Mark.endOfArm.shown)) []

/-- A command; `body` and `armBody` read the lists inside it, `inner` the body of a function. -/
def command (rules : Rules) (body armBody inner : Reader Script) : Reader Script := do
  let withRedirections (script : Script) : Reader Script := do
    let found ← redirections rules
    return if found.isEmpty then script else .redirected script found
  match ← mark rules false false with
  | .keyword "if" => withRedirections (← conditional rules body ((← get).rest.length + 1))
  | .keyword "while" =>
    let condition ← body
    withRedirections (.loop true condition (← doneBody rules false body))
  | .keyword "until" =>
    let condition ← body
    withRedirections (.loop false condition (← doneBody rules false body))
  | .keyword "for" => withRedirections (← each rules body)
  | .keyword "case" => withRedirections (← select rules armBody)
  | .keyword "\x7b" =>
    let inside ← body
    keyword rules false "\x7d"
    withRedirections inside
  | .opening =>
    let inside ← body
    match ← mark rules false false with
    | .closing => withRedirections (.subshell inside)
    | m => unexpected m (some Mark.closing.shown)
  | .word word =>
    putBack (.word word)
    simple rules inner
  | .redirection channel opening =>
    putBack (.redirection channel opening)
    simple rules inner
  | m => unexpected m none

/-! ## Nesting -/

/-- Everything that is read at one depth of nesting. -/
structure Level where
  rules : Rules
  command : Reader Script
  list : Extent → Reader Script

/-- The rules down to a depth. -/
def level : Nat → Level
  | 0 => ⟨⟨fail .tooDeep, fail .tooDeep, fun _ => fail .tooDeep⟩, fail .tooDeep, fun _ => fail .tooDeep⟩
  | depth + 1 =>
    let inner := level depth
    let output := do
      let outer ← get
      set { outer with pushed := none }
      let script ← inner.list .output
      return script
    let enclosed := do
      let outer ← get
      set { outer with pushed := none }
      let script ← inner.list .output
      match ← mark inner.rules false false with
      | .closing => pure ()
      | m => unexpected m (some Mark.closing.shown)
      modify fun s => { s with pushed := outer.pushed }
      return script
    let rules : Rules :=
      { output, enclosed, braced := fun quoted => Words.bracedWord inner.rules quoted }
    let command := command rules (inner.list .body) (inner.list .output) inner.command
    { rules, command, list := fun extent => list rules (andOr rules command) extent }

def nesting : Nat := 100

end Reading

/-- Reads the next line of commands; nothing at the end of the text. -/
def Script.next? (source : Source) : Except (Nat × SyntaxFault) (Option (Script × Source)) := do
  let level := Reading.level Reading.nesting
  let (m, source) ← (Reading.mark level.rules false true).run source
  match m with
  | .endOfText => return none
  | .newline => return some (.nothing, source)
  | m =>
    let (script, source) ← (level.list .line).run { source with pushed := some m }
    return some (script, source)

end Reanalysis.Shell
