import Reanalysis.Script.Node

/-!
# Phrases

The nonterminal symbols of scripts. Hidden phrases give their parts to the phrase around them, so
that they leave no node of their own in a syntax tree.
-/

namespace Reanalysis.Script

inductive Phrase where
  | program
  | statements
  | statement
  | declaration
  | exportStatement
  | namespaceExport
  | exportClause
  | exportSpecifier
  | furtherExports
  | exportName
  | importStatement
  | importClause
  | importSource
  | namespaceImport
  | namedImports
  | importSpecifier
  | furtherImports
  | importAttribute
  | importWord
  | expressionStatement
  | variableDeclaration
  | lexicalDeclaration
  | declarator
  | furtherDeclarators
  | initializer
  | destructuring
  | block
  | conditional
  | elseClause
  | switchStatement
  | switchBody
  | switchCases
  | switchCase
  | switchDefault
  | forStatement
  | forInStatement
  | forHeader
  | whileStatement
  | doStatement
  | tryStatement
  | catchClause
  | finallyClause
  | withStatement
  | breakStatement
  | continueStatement
  | debuggerStatement
  | returnStatement
  | throwStatement
  | emptyStatement
  | labelledStatement
  | parenthesized
  | expression
  | primary
  | expressionSequence
  | furtherExpressions
  | yieldExpression
  | awaitExpression
  | unary
  | binary
  | ternary
  | update
  | assignment
  | compoundAssignment
  | compoundTarget
  | call
  | newExpression
  | member
  | subscript
  | metaProperty
  | arguments
  | array
  | furtherElements
  | spread
  | object
  | furtherMembers
  | pair
  | method
  | propertyName
  | computedName
  | pattern
  | restPattern
  | assignmentPattern
  | arrayPattern
  | furtherElementPatterns
  | objectPattern
  | furtherMemberPatterns
  | pairPattern
  | memberAssignmentPattern
  | functionLiteral
  | functionDeclaration
  | generatorLiteral
  | generatorDeclaration
  | arrowFunction
  | parameters
  | furtherParameters
  | classLiteral
  | classDeclaration
  | heritage
  | classBody
  | classMembers
  | fieldDefinition
  | staticBlock
  | decorators
  | decorator
  | decoratorMember
  | decoratorCall
  | string
  | doubleQuotedParts
  | singleQuotedParts
  | template
  | templateParts
  | substitution
  | regularExpression
  | element
  | elementChildren
  | openingTag
  | closingTag
  | selfClosingTag
  | tagAttributes
  | tagAttribute
  | attributeText
  | doubleAttributeParts
  | singleAttributeParts
  | nestedName
  | namespacedName
  | embedded
deriving DecidableEq, Hashable, Repr, Inhabited

namespace Phrase

/-- Phrases for any positive number of parts of one sort. -/
def isRepetition : Phrase → Bool
  | .statements | .furtherExports | .furtherImports | .furtherDeclarators | .switchCases
  | .furtherExpressions | .furtherElements | .furtherMembers | .furtherElementPatterns
  | .furtherMemberPatterns | .furtherParameters | .classMembers | .decorators
  | .doubleQuotedParts | .singleQuotedParts | .templateParts | .elementChildren | .tagAttributes
  | .doubleAttributeParts | .singleAttributeParts => true
  | _ => false

def isHidden : Phrase → Bool
  | .statement | .declaration | .exportName | .importSource | .initializer | .destructuring
  | .forHeader | .expression | .primary | .compoundTarget | .propertyName | .pattern => true
  | p => p.isRepetition

def kind : Phrase → Kind
  | .emptyStatement => .emptyStatement
  | .block => .block
  | .conditional => .conditional
  | .elseClause => .elseClause
  | _ => .other

end Phrase

end Reanalysis.Script
