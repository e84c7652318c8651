import Reanalysis.Script.Rule

/-!
# The grammar of scripts

The clauses of every phrase. Statements may begin like expressions of any sort, so that a brace opens
a block or an object, and names, objects and arrays may turn out to be targets of assignments; which
of these a text means can become clear much later. Markup may stand where an expression may.
-/

namespace Reanalysis.Script

namespace Grammar

open Rule Phrase

/-! ## Parts of many phrases -/

def semicolon : Rule := oneOf [Token.omittedSemicolon, ";"]

/-- Words with a meaning in some places that are names in all others. -/
def softWord : Rule := anyOf ["get", "set", "async", "static", "export", "let"]

/-- A name of a property, of a label or of a parameter. -/
def anyName : Rule := oneOf [Token.name, softWord]

/-- A name as an expression or as a target. -/
def variableName : Rule := oneOf ["undefined", Token.name, softWord]

def expressions : Rule := oneOf [expression, expressionSequence]

/-- What a value can be assigned to. -/
def target : Rule := oneOf [member, subscript, variableName, destructuring]

def binding : Rule := oneOf [Token.name, destructuring]

def parameter : Rule := oneOf [pattern, assignmentPattern]

def objectMember : Rule := oneOf [pair, spread, method, anyName]

def objectMemberPattern : Rule := oneOf [pairPattern, restPattern, memberAssignmentPattern, anyName]

def anyElement : Rule := oneOf [element, selfClosingTag]

def plainTagName : Rule := oneOf [Token.tagName, Token.name]

def fullTagName : Rule := oneOf [plainTagName, nestedName, namespacedName]

/-! ## Clauses -/

def plain (body : Rule) : List Clause := [{ body }]

def ranked (rank : Rank) (body : Rule) : List Clause := [{ rank := some rank, body }]

def rightward (body : Rule) : List Clause := [{ side := some .right, body }]

def rankedRightward (rank : Rank) (body : Rule) : List Clause :=
  [{ rank := some rank, side := some .right, body }]

/-- A phrase for parts of one sort: two such phrases, or one part. -/
def many (self : Phrase) (part : Rule) : List Clause := plain (oneOf [seq [self, self], part])

/-- Binary operators by rank. All but the last group go on with the left operand. -/
def operators : List (Rank × List String) :=
  [(.logicalAnd, ["&&"]), (.logicalOr, ["||"]), (.shift, [">>", ">>>", "<<"]), (.bitAnd, ["&"]),
   (.bitXor, ["^"]), (.bitOr, ["|"]), (.plus, ["+", "-"]), (.times, ["*", "/", "%"]),
   (.relation, ["<", "<=", ">=", ">", "instanceof"]), (.equality, ["==", "===", "!=", "!=="]),
   (.ternary, ["??"])]

def compoundOperators : List String :=
  ["+=", "-=", "*=", "/=", "%=", "^=", "&=", "|=", ">>=", ">>>=", "<<=", "**=", "&&=", "||=", "??="]

def loopHeading : Rule :=
  seq ["(",
    oneOf [target, parenthesized,
      seq ["var", binding, opt initializer],
      seq [anyOf ["let", "const"], binding, opt Token.omittedSemicolon]],
    anyOf ["in", "of"], expressions, ")"]

def clauses : Phrase → List Clause
  | .program => plain (seq [opt Token.hashBang, opt statements])
  | .statements => many statements statement
  | .statement => plain (oneOf [exportStatement, importStatement, debuggerStatement,
      expressionStatement, declaration, block, conditional, switchStatement, forStatement,
      forInStatement, whileStatement, doStatement, tryStatement, withStatement, breakStatement,
      continueStatement, returnStatement, throwStatement, emptyStatement, labelledStatement])
  | .declaration => plain (oneOf [functionDeclaration, generatorDeclaration, classDeclaration,
      lexicalDeclaration, variableDeclaration])
  -- modules
  | .exportStatement => plain (oneOf [
      seq ["export", oneOf [seq ["*", importSource], seq [namespaceExport, importSource],
        seq [exportClause, importSource], exportClause], semicolon],
      seq [opt decorators, "export",
        oneOf [declaration, seq ["default", oneOf [declaration, seq [expression, semicolon]]]]]])
  | .namespaceExport => plain (seq ["*", "as", exportName])
  | .exportClause => plain (seq ["\x7b", opt (seq [exportSpecifier, opt furtherExports]), opt ",",
      "\x7d"])
  | .exportSpecifier => plain (seq [exportName, opt (seq ["as", exportName])])
  | .furtherExports => many furtherExports (seq [",", exportSpecifier])
  | .exportName => plain (oneOf [Token.name, string, "default"])
  | .importStatement => plain (seq ["import", oneOf [seq [importClause, importSource], string],
      opt importAttribute, semicolon])
  | .importClause => plain (oneOf [namespaceImport, namedImports,
      seq [Token.name, opt (seq [",", oneOf [namespaceImport, namedImports]])]])
  | .importSource => plain (seq ["from", string])
  | .namespaceImport => plain (seq ["*", "as", Token.name])
  | .namedImports => plain (seq ["\x7b", opt (seq [importSpecifier, opt furtherImports]), opt ",",
      "\x7d"])
  | .importSpecifier => plain (oneOf [Token.name, seq [exportName, "as", Token.name]])
  | .furtherImports => many furtherImports (seq [",", importSpecifier])
  | .importAttribute => plain (seq ["with", object])
  | .importWord => plain "import"
  -- statements
  | .expressionStatement => plain (seq [expressions, semicolon])
  | .variableDeclaration => plain (seq ["var", declarator, opt furtherDeclarators, semicolon])
  | .lexicalDeclaration => plain (seq [anyOf ["let", "const"], declarator, opt furtherDeclarators,
      semicolon])
  | .declarator => plain (seq [binding, opt initializer])
  | .furtherDeclarators => many furtherDeclarators (seq [",", declarator])
  | .initializer => plain (seq ["=", expression])
  | .destructuring => plain (oneOf [objectPattern, arrayPattern])
  | .block => rightward (seq ["\x7b", opt statements, "\x7d", opt Token.omittedSemicolon])
  | .conditional => rightward (seq ["if", inField .condition parenthesized,
      inField .consequence statement, opt (inField .alternative elseClause)])
  | .elseClause => plain (seq ["else", statement])
  | .switchStatement => plain (seq ["switch", parenthesized, switchBody])
  | .switchBody => plain (seq ["\x7b", opt switchCases, "\x7d"])
  | .switchCases => many switchCases (oneOf [switchCase, switchDefault])
  | .switchCase => plain (seq ["case", expressions, ":", opt statements])
  | .switchDefault => plain (seq ["default", ":", opt statements])
  | .forStatement => plain (seq ["for", "(",
      oneOf [lexicalDeclaration, variableDeclaration, seq [expressions, ";"], emptyStatement],
      oneOf [seq [expressions, ";"], emptyStatement], opt expressions, ")", statement])
  | .forInStatement => plain (seq ["for", opt "await", forHeader, statement])
  | .forHeader => plain loopHeading
  | .whileStatement => plain (seq ["while", parenthesized, statement])
  | .doStatement => rightward (seq ["do", statement, "while", parenthesized, opt semicolon])
  | .tryStatement => plain (seq ["try", block, opt catchClause, opt finallyClause])
  | .catchClause => plain (seq ["catch", opt (seq ["(", binding, ")"]), block])
  | .finallyClause => plain (seq ["finally", block])
  | .withStatement => plain (seq ["with", parenthesized, statement])
  | .breakStatement => plain (seq ["break", opt Token.name, semicolon])
  | .continueStatement => plain (seq ["continue", opt Token.name, semicolon])
  | .debuggerStatement => plain (seq ["debugger", semicolon])
  | .returnStatement => plain (seq ["return", opt expressions, semicolon])
  | .throwStatement => plain (seq ["throw", expressions, semicolon])
  | .emptyStatement => plain ";"
  | .labelledStatement => [{ weight := -1, body := seq [anyName, ":", statement] }]
  -- expressions
  | .parenthesized => plain (seq ["(", expressions, ")"])
  | .expression => plain (oneOf [primary, anyElement, assignment, compoundAssignment,
      awaitExpression, unary, binary, ternary, update, newExpression, yieldExpression])
  | .primary => plain (oneOf [subscript, member, parenthesized, variableName, "this", "super",
      Token.number, string, template, regularExpression, "true", "false", "null", object, array,
      functionLiteral, arrowFunction, generatorLiteral, classLiteral, metaProperty, call])
  | .expressionSequence => rightward (seq [expression, opt furtherExpressions])
  | .furtherExpressions => many furtherExpressions (seq [",", expression])
  | .yieldExpression => rightward (seq ["yield", oneOf [seq ["*", expression], opt expression]])
  | .awaitExpression => ranked .unary (seq ["await", expression])
  | .unary => [{
      rank := some .unary
      side := some .left
      body := seq [anyOf ["!", "~", "-", "+", "typeof", "void", "delete"], expression] }]
  | .binary =>
    (operators.map fun (rank, texts) => {
      rank := some rank
      side := some .left
      body := seq [expression, anyOf texts, expression] }) ++
    [{ rank := some .relation
       side := some .left
       body := seq [oneOf [expression, Token.privateName], "in", expression] },
     { rank := some .power
       side := some .right
       body := seq [expression, "**", expression] }]
  | .ternary => rankedRightward .ternary
      (seq [expression, Token.questionMark, expression, ":", expression])
  | .update => [{
      side := some .left
      body := oneOf [seq [expression, anyOf ["++", "--"]], seq [anyOf ["++", "--"], expression]] }]
  | .assignment => rankedRightward .assign (seq [oneOf [parenthesized, target], "=", expression])
  | .compoundAssignment => rankedRightward .assign
      (seq [compoundTarget, anyOf compoundOperators, expression])
  | .compoundTarget => plain (oneOf [member, subscript, anyName, parenthesized])
  | .call => ranked .call (seq [oneOf [expression, importWord], arguments]) ++
      ranked .templateCall (seq [oneOf [primary, newExpression], template]) ++
      ranked .member (seq [primary, "?.", arguments])
  | .newExpression => rankedRightward .new (seq ["new", oneOf [primary, newExpression]]) ++
      [{ rank := some .new
         side := some .right
         weight := 1
         body := seq ["new", oneOf [primary, newExpression], arguments] }]
  | .member => ranked .member (seq [oneOf [expression, primary, importWord], anyOf [".", "?."],
      oneOf [Token.privateName, Token.name]])
  | .subscript => rankedRightward .member
      (seq [oneOf [expression, primary], opt "?.", "[", expressions, "]"])
  | .metaProperty => plain (oneOf [seq ["new", ".", "target"], seq ["import", ".", "meta"]])
  | .arguments => plain (seq ["(", opt (oneOf [expression, spread]), opt furtherElements, ")"])
  -- literals
  | .array => plain (seq ["[", opt (oneOf [expression, spread]), opt furtherElements, "]"])
  | .furtherElements => many furtherElements (seq [",", opt (oneOf [expression, spread])])
  | .spread => plain (seq ["...", expression])
  | .object => ranked .object (seq ["\x7b", opt objectMember, opt furtherMembers, "\x7d"])
  | .furtherMembers => many furtherMembers (seq [",", opt objectMember])
  | .pair => plain (seq [propertyName, ":", expression])
  | .method => plain (seq [opt decorators, opt (oneOf ["static", Token.staticGetter]), opt "async",
      opt (anyOf ["get", "set", "*"]), propertyName, parameters, block])
  | .propertyName => plain (oneOf [anyName, Token.privateName, string, Token.number, computedName])
  | .computedName => plain (seq ["[", expression, "]"])
  | .string => plain (oneOf [seq ["\"", opt doubleQuotedParts, "\""],
      seq ["'", opt singleQuotedParts, "'"]])
  | .doubleQuotedParts => many doubleQuotedParts (oneOf [Token.doubleQuoted, Token.escape])
  | .singleQuotedParts => many singleQuotedParts (oneOf [Token.singleQuoted, Token.escape])
  | .template => plain (seq ["\x60", opt templateParts, "\x60"])
  | .templateParts => many templateParts (oneOf [Token.templateText, Token.escape, substitution])
  | .substitution => plain (seq ["$\x7b", expressions, "\x7d"])
  | .regularExpression => plain (seq ["/", Token.pattern, Token.patternEnd, opt Token.flags])
  -- patterns
  | .pattern => [{ weight := -1, body := oneOf [target, restPattern] }]
  | .restPattern => rightward (seq ["...", target])
  | .assignmentPattern => plain (seq [pattern, "=", expression])
  | .arrayPattern => plain (seq ["[", opt parameter, opt furtherElementPatterns, "]"])
  | .furtherElementPatterns => many furtherElementPatterns (seq [",", opt parameter])
  | .objectPattern => ranked .object
      (seq ["\x7b", opt objectMemberPattern, opt furtherMemberPatterns, "\x7d"])
  | .furtherMemberPatterns => many furtherMemberPatterns (seq [",", opt objectMemberPattern])
  | .pairPattern => plain (seq [propertyName, ":", parameter])
  | .memberAssignmentPattern => plain (seq [oneOf [anyName, destructuring], "=", expression])
  -- functions
  | .functionLiteral => ranked .literal
      (seq [opt "async", "function", opt Token.name, parameters, block])
  | .functionDeclaration => rankedRightward .declaration
      (seq [opt "async", "function", Token.name, parameters, block, opt Token.omittedSemicolon])
  | .generatorLiteral => ranked .literal
      (seq [opt "async", "function", "*", opt Token.name, parameters, block])
  | .generatorDeclaration => rankedRightward .declaration
      (seq [opt "async", "function", "*", Token.name, parameters, block,
        opt Token.omittedSemicolon])
  | .arrowFunction => plain (seq [opt "async", oneOf [anyName, parameters], "=>",
      oneOf [expression, block]])
  | .parameters => plain (seq ["(", opt (seq [parameter, opt furtherParameters, opt ","]), ")"])
  | .furtherParameters => many furtherParameters (seq [",", parameter])
  -- classes
  | .classLiteral => ranked .literal
      (seq [opt decorators, "class", opt Token.name, opt heritage, classBody])
  | .classDeclaration => ranked .declaration
      (seq [opt decorators, "class", Token.name, opt heritage, classBody,
        opt Token.omittedSemicolon])
  | .heritage => plain (seq ["extends", expression])
  | .classBody => plain (seq ["\x7b", opt classMembers, "\x7d"])
  | .classMembers => many classMembers (oneOf [seq [method, opt ";"],
      seq [fieldDefinition, semicolon], staticBlock, ";"])
  | .fieldDefinition => plain (seq [opt decorators, opt "static", propertyName, opt initializer])
  | .staticBlock => plain (seq ["static", opt Token.omittedSemicolon, block])
  | .decorators => many decorators decorator
  | .decorator => plain (seq ["@", oneOf [Token.name, decoratorMember, decoratorCall]])
  | .decoratorMember => ranked .member
      (seq [oneOf [Token.name, decoratorMember], ".", Token.name])
  | .decoratorCall => ranked .call (seq [oneOf [Token.name, decoratorMember], arguments])
  -- markup
  | .element => plain (seq [openingTag, opt elementChildren, closingTag])
  | .elementChildren => many elementChildren
      (oneOf [Token.tagText, Token.reference, anyElement, embedded])
  | .openingTag => [{ weight := -1, body := seq ["<", opt (seq [fullTagName, opt tagAttributes]), ">"] }]
  | .closingTag => plain (seq ["</", opt fullTagName, ">"])
  | .selfClosingTag => plain (seq ["<", fullTagName, opt tagAttributes, "/>"])
  | .tagAttributes => many tagAttributes (oneOf [tagAttribute, embedded])
  | .tagAttribute => plain (seq [oneOf [plainTagName, namespacedName],
      opt (seq ["=", oneOf [attributeText, embedded, anyElement]])])
  | .attributeText => plain (oneOf [seq ["\"", opt doubleAttributeParts, "\""],
      seq ["'", opt singleAttributeParts, "'"]])
  | .doubleAttributeParts => many doubleAttributeParts
      (oneOf [Token.doubleAttribute, Token.reference])
  | .singleAttributeParts => many singleAttributeParts
      (oneOf [Token.singleAttribute, Token.reference])
  | .nestedName => ranked .member (seq [oneOf [Token.name, nestedName], ".", Token.name])
  | .namespacedName => plain (seq [plainTagName, ":", plainTagName])
  | .embedded => plain (seq ["\x7b", opt (oneOf [expression, expressionSequence, spread]), "\x7d"])

/-- Standings in falling order. Two standings compare by the first list that has both. -/
def orders : List (List Standing) :=
  [[.rank .member, .rank .templateCall, .rank .call, .phrase .update, .rank .unary, .rank .power,
    .rank .times, .rank .plus, .rank .shift, .rank .relation, .rank .equality, .rank .bitAnd,
    .rank .bitXor, .rank .bitOr, .rank .logicalAnd, .rank .logicalOr, .rank .ternary,
    .phrase .expressionSequence, .phrase .arrowFunction],
   [.rank .assign, .phrase .primary],
   [.rank .member, .rank .templateCall, .rank .new, .rank .call, .phrase .expression],
   [.rank .declaration, .rank .literal],
   [.phrase .primary, .phrase .block, .rank .object],
   [.phrase .metaProperty, .phrase .importWord],
   [.phrase .importStatement, .phrase .importWord],
   [.phrase .exportStatement, .phrase .primary],
   [.phrase .lexicalDeclaration, .phrase .primary]]

end Grammar

end Reanalysis.Script
