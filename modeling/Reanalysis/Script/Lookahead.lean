import Reanalysis.Script.Automaton
import Reanalysis.Script.Semicolon

/-!
# The next token

Which token comes next depends on the state: only tokens that the state expects are looked for. Of
those that match the longest one is taken, and a fixed text before a class of texts of the same
length. A semicolon that has been left out, and the first mark of a choice, are found by rules of
their own before that. A choice may begin wherever the rule for semicolons stopped looking.
-/

namespace Reanalysis.Script

/-- A place in a text. Rows are counted from zero. -/
structure Place where
  offset : Nat
  row : Nat
  /-- The number of characters from here on. -/
  left : Nat
  rest : List Char

namespace Place

def start (cs : List Char) : Place := ⟨0, 0, cs.length, cs⟩

def advance (p : Place) (n : Nat) : Place :=
  ⟨p.offset + n, p.row + (p.rest.take n).count '\n', p.left - n, p.rest.drop n⟩

def skipSpaces (p : Place) : Place := p.advance (p.rest.takeWhile isSpace).length

end Place

structure Lookahead where
  token : Token
  start : Place
  stop : Place
  /-- Whether its text is a keyword, which may turn out to be a name. -/
  isKeyword : Bool := false

def Lookahead.text (t : Lookahead) : String :=
  String.ofList (t.start.rest.take (t.stop.offset - t.start.offset))

/-- The length of a token of a class at the front of a text; zero if there is none. -/
def Token.length (cs : List Char) : Token → Nat
  | .fixed text => if startsWith text cs then text.length else 0
  | .name => wordLength cs
  | .privateName => privateLength cs
  | .number => numberLength cs
  | .doubleQuoted => fragmentLength '"' cs
  | .singleQuoted => fragmentLength '\'' cs
  | .escape => escapeLength cs
  | .pattern => patternLength cs
  | .patternEnd => if startsWith "/" cs then 1 else 0
  | .flags => flagsLength cs
  | .staticGetter => staticGetterLength cs
  | .hashBang => hashBangLength cs
  | .comment => commentLength cs
  | .tagName => tagNameLength cs
  | .reference => referenceLength cs
  | .doubleAttribute => attributeLength '"' cs
  | .singleAttribute => attributeLength '\'' cs
  | .templateText | .tagText | .pageComment | .omittedSemicolon | .questionMark | .endOfText => 0

namespace Lookahead

def precedes (a b : Lookahead) : Bool :=
  if a.token.isGreedy ≠ b.token.isGreedy then a.token.isGreedy
  else if a.stop.offset ≠ b.stop.offset then b.stop.offset < a.stop.offset
  else match a.token, b.token with
    | .fixed _, .fixed _ => false
    | .fixed _, _ => true
    | _, _ => false

/-- The token of a class at a place; `p` is the place and `q` the place behind its blanks. -/
def find? (p q : Place) (t : Token) : Option Lookahead :=
  let from' := if t.isImmediate then p else q
  match t.length from'.rest with
  | 0 => none
  | n => some { token := t, start := from', stop := from'.advance n }

/-- A keyword is a name unless the state expects it. -/
def classify (s : State) (t : Lookahead) : Lookahead :=
  if t.token ≠ .name then t
  else
    let keyword := Token.fixed t.text
    if !hasToken keywords keyword then t
    else { t with token := if s.expects keyword then keyword else .name, isKeyword := true }

/-- The longest token that a state looks for. -/
def longest? (s : State) (p : Place) : Option Lookahead :=
  let q := p.skipSpaces
  let best := s.sought.foldl
    (fun best t =>
      match find? p q t, best with
      | none, _ => best
      | some found, none => some found
      | some found, some old => if found.precedes old then some found else best)
    none
  match best with
  | some t => some (t.classify s)
  | none =>
    if q.left = 0 && s.expects .endOfText then some { token := .endOfText, start := q, stop := q }
    else none

/-- The first mark of a choice at a place. It is not the first half of another operator; a point
behind it belongs to a number. -/
def questionMark? (p : Place) : Option Lookahead :=
  match p.rest with
  | '?' :: '?' :: _ => none
  | '?' :: '.' :: rest =>
    if rest.head?.any Char.isDigit then
      some { token := .questionMark, start := p, stop := p.advance 1 }
    else none
  | '?' :: _ => some { token := .questionMark, start := p, stop := p.advance 1 }
  | _ => none

def skipPlainBlanks (p : Place) : Place := p.advance (p.rest.takeWhile isPlainBlank).length

def pageComment? (p : Place) : Option Lookahead :=
  let q := p.advance (p.rest.takeWhile fun c => isPlainBlank c || isSeparator c).length
  match pageCommentLength q.rest with
  | 0 => none
  | n => some { token := .pageComment, start := q, stop := q.advance n }

def special? (s : State) (p : Place) : Option Lookahead :=
  if s.expects .templateText then
    match templateLength? p.rest with
    | some (n + 1) => some { token := .templateText, start := p, stop := p.advance (n + 1) }
    | _ => none
  else if s.expects .tagText && 0 < tagTextLength p.rest then
    some { token := .tagText, start := p, stop := p.advance (tagTextLength p.rest) }
  else if s.expects .omittedSemicolon then
    match semicolonRefused? (s.expects (.fixed "||")) (p.left + 1) false p.rest with
    | none => some { token := .omittedSemicolon, start := p, stop := p }
    | some refusal =>
      if s.expects .questionMark && !refusal.commented && refusal.rest.head? = some '?' then
        questionMark? (p.advance (p.left - refusal.rest.length))
      else none
  else if s.expects .questionMark then questionMark? (skipPlainBlanks p)
  else if s.expects (.fixed "||") || s.expects .escape || s.expects .pattern then none
  else pageComment? p

end Lookahead

def State.lookahead? (s : State) (p : Place) : Option Lookahead :=
  match Lookahead.special? s p with
  | some t => some t
  | none => Lookahead.longest? s p

end Reanalysis.Script
