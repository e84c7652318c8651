import Reanalysis.Script.Parsing

/-!
# Programs

The syntax tree of a whole text. A text that is no program is refused with the place where reading
got stuck.
-/

namespace Reanalysis.Script

/-- Line and column are counted from one, the column in bytes. -/
structure Position where
  line : Nat
  column : Nat
deriving DecidableEq, Repr

def Position.after (before : List Char) : Position :=
  let last := before.reverse.takeWhile (· ≠ '\n')
  ⟨before.count '\n' + 1, last.foldl (fun n c => n + c.utf8Size) 1⟩

def Token.kind : Token → Kind
  | .comment => .comment
  | .hashBang => .hashBang
  | .pageComment => .other
  | _ => .token

namespace Subtree

mutual

/-- The parts that a tree adds to the node around it, in front of `more`. A hidden phrase adds its
own parts, which then have its role. -/
def parts (role : Option Field) : Subtree → List (Option Field × Node) → List (Option Field × Node)
  | .leaf token span text, more => (role, .leaf token.kind span.row text) :: more
  | .node phrase fields span _ children, more =>
    if phrase.isHidden then partsOf role fields children more
    else (role, .branch phrase.kind span.row (partsOf none fields children [])) :: more

/-- The parts of the children of a node. Extras have no role and no place in its production. -/
def partsOf (role : Option Field) (fields : List (Option Field)) :
    List Subtree → List (Option Field × Node) → List (Option Field × Node)
  | [], more => more
  | c :: rest, more =>
    if c.isExtra then c.parts none (partsOf role fields rest more)
    else c.parts ((fields.head?.getD none).or role) (partsOf role fields.tail rest more)

end

def toNode (t : Subtree) : Node :=
  match t with
  | .leaf token span text => .leaf token.kind span.row text
  | .node _ fields span _ children => .branch .other span.row (partsOf none fields children [])

end Subtree

def syntaxTree (source : String) : Except Position Node :=
  let cs := source.toList
  match readAll cs with
  | .ok tree => .ok tree.toNode
  | .error place => .error (.after (cs.take place.offset))

def parse (source : String) : Except Position Tree := return (← syntaxTree source).reduce

end Reanalysis.Script
