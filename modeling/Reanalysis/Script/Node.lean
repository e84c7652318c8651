import Reanalysis.Tree.Statement

/-!
# Syntax trees of scripts and their reduction

A syntax tree holds every token and every comment of a script. Its reduction keeps the lists of
statements, with conditionals split into test and arms, and the text of each statement as its
tokens with single blanks between them. Comments, empty statements and layout leave no trace.
-/

namespace Reanalysis.Script

/-- What the reduction distinguishes. Tokens are the punctuation and the words of a construct;
everything else is a part of a script with a name of its own. -/
inductive Kind where
  | token
  | comment
  | hashBang
  | emptyStatement
  | block
  | conditional
  | elseClause
  | other
deriving DecidableEq, Repr

namespace Kind

/-- Parts that are no statements where statements stand. -/
def isSkipped : Kind → Bool
  | .comment | .hashBang | .emptyStatement => true
  | _ => false

def isStatement (k : Kind) : Bool := k ≠ .token && !k.isSkipped

end Kind

/-- The role of a part in its conditional. -/
inductive Field where
  | condition
  | consequence
  | alternative
deriving DecidableEq, Repr

/-- Rows are counted from zero. -/
inductive Node where
  | leaf (kind : Kind) (row : Nat) (text : String)
  | branch (kind : Kind) (row : Nat) (children : List (Option Field × Node))
deriving Repr

namespace Node

def kind : Node → Kind
  | .leaf kind _ _ => kind
  | .branch kind _ _ => kind

def row : Node → Nat
  | .leaf _ row _ => row
  | .branch _ row _ => row

mutual

def tokens : Node → List String
  | .leaf kind _ text => if kind = .comment || text.isEmpty then [] else [text]
  | .branch kind _ children => if kind = .comment then [] else childTokens children

def childTokens : List (Option Field × Node) → List String
  | [] => []
  | (_, n) :: rest => n.tokens ++ childTokens rest

end

def text (n : Node) : String := " ".intercalate n.tokens

def field? (f : Field) (children : List (Option Field × Node)) : Option Node :=
  (children.find? (·.1 = some f)).map (·.2)

/-- A statement, given the reduction of the arms that it would have as a conditional. -/
def assemble (kind : Kind) (row : Nat) (children : List (Option Field × Node))
    (thenArm : List Statement) (elseArm : Option (List Statement)) : Statement :=
  let whole := (Node.branch kind row children).text
  if kind = .conditional then
    .conditional (row + 1) whole (((field? .condition children).map text).getD "") thenArm elseArm
  else .simple (row + 1) whole

mutual

def statement : Node → Statement
  | .leaf kind row text => .simple (row + 1) (Node.leaf kind row text).text
  | .branch kind row children =>
    assemble kind row children (consequence children) (alternative children)

def statements : List (Option Field × Node) → List Statement
  | [] => []
  | (_, n) :: rest => if n.kind.isStatement then n.statement :: statements rest else statements rest

/-- An arm: a block stands for its statements, anything else for itself. -/
def arm : Node → List Statement
  | .leaf kind row text =>
    if kind.isSkipped then [] else [.simple (row + 1) (Node.leaf kind row text).text]
  | .branch kind row children =>
    if kind = .block then statements children
    else if kind.isSkipped then []
    else [assemble kind row children (consequence children) (alternative children)]

def arms : List (Option Field × Node) → List Statement
  | [] => []
  | (_, n) :: rest => if n.kind.isStatement then n.arm ++ arms rest else arms rest

def consequence : List (Option Field × Node) → List Statement
  | [] => []
  | (f, n) :: rest => if f = some .consequence then n.arm else consequence rest

def alternative : List (Option Field × Node) → Option (List Statement)
  | [] => none
  | (f, n) :: rest => if f = some .alternative then some n.clause else alternative rest

/-- The arm behind the word `else`. -/
def clause : Node → List Statement
  | .leaf _ _ _ => []
  | .branch _ _ children => arms children

end

def reduce : Node → Tree
  | .leaf _ _ _ => []
  | .branch _ _ children => statements children

end Node

end Reanalysis.Script
