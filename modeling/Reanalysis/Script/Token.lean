/-!
# Tokens

The terminal symbols of scripts. Words and marks stand for themselves, every other token for a class
of texts.
-/

namespace Reanalysis.Script

inductive Token where
  | fixed (text : String)
  | name
  | privateName
  | number
  | doubleQuoted
  | singleQuoted
  | escape
  | templateText
  | pattern
  | patternEnd
  | flags
  | staticGetter
  | hashBang
  | comment
  | pageComment
  /-- A semicolon that has been left out. -/
  | omittedSemicolon
  /-- The first mark of a choice between two expressions. -/
  | questionMark
  | tagName
  | tagText
  | reference
  | doubleAttribute
  | singleAttribute
  | endOfText
deriving DecidableEq, Hashable, Repr, Inhabited

namespace Token

/-- Tokens that follow the token before them without blanks. -/
def isImmediate : Token → Bool
  | .doubleQuoted | .singleQuoted | .escape | .templateText | .pattern | .patternEnd | .flags
  | .tagText | .doubleAttribute | .singleAttribute => true
  | _ => false

/-- Tokens that may stand between any two others. -/
def isExtra (t : Token) : Bool := t = .comment || t = .pageComment

/-- Tokens that are taken, where they match, before any other. -/
def isGreedy : Token → Bool
  | .doubleQuoted | .singleQuoted | .patternEnd | .doubleAttribute | .singleAttribute => true
  | _ => false

/-- Operators that read like words. They need no blank behind them where no word can follow. -/
def wordOperators : List String := ["in", "of", "instanceof"]

/-- Words that are names wherever they are not expected. -/
def isKeyword : Token → Bool
  | .fixed text => text.all Char.isAlpha && !wordOperators.contains text
  | _ => false

end Token

end Reanalysis.Script
