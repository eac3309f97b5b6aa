import CodeHealth.Source.Grammar.Class

/-!
# Statements and declarations
-/

namespace CodeHealth.Source.Grammar

variable (d : Dialect)

def statement : Expr := .call .statement

/-- The comments behind a declaration that belong to it, where the dialect counts them. -/
def closing : Expr :=
  optIf d.typed .lineTail

/-! ### Declarations -/

def functionDeclaration : Expr :=
  .node .functionDecl (.seq [functionHead, .node .name name, callable d, closing d])

/-- A function without a body. -/
def functionSignature : Expr :=
  .node .functionSignature (.seq [functionHead, .node .name name, typeParameters d,
    .call .parameters, returnType d, .notAhead (operator "\x7b"),
    .opt (.choice [operator ";", .lineTail])])

def classDeclaration : Expr :=
  .node .classDecl (.seq [classHead d, className, classTail d, closing d])

def bindingStart : Expr :=
  .choice [name, operators ["\x7b", "["]]

def variableKind : Expr :=
  .choice [keyword "var", .seq [keyword "const", .notAhead (keyword "enum")],
    .seq [keyword "let", .ahead bindingStart],
    .seq [keyword "using", .sameLine, .ahead (.seq [.notAhead (keyword "of"), name])],
    .seq [keyword "await", .sameLine, keyword "using", .sameLine, .ahead name]]

def declarator (withIn : Bool) : Expr :=
  .seq [bindingTarget, optIf d.typed (operator "!"), returnType d,
    .opt (.seq [operator "=", .call (.assignment withIn true)])]

def bindings (withIn : Bool) : Expr :=
  .seq [variableKind, declarator d withIn, .star (.seq [operator ",", declarator d withIn])]

def variableDeclaration : Expr :=
  .node .statement (.seq [bindings d true, semicolon])

/-- A member of an enumeration, whose value may be any expression. -/
def enumMember : Expr :=
  .seq [key, .opt (.seq [operator "=", assignment])]

def typeDeclaration : Expr :=
  .node .statement (.choice [
    .seq [keyword "type", .sameLine, name, .opt angles, operator "=", type, semicolon],
    .seq [keyword "interface", .sameLine, name, .opt angles,
      .opt (.seq [keyword "extends", type, .star (.seq [operator ",", type])]), curlyGroup],
    .seq [.opt (keyword "const"), keyword "enum", name, braces (commaList enumMember)]])

def namespaceDeclaration : Expr :=
  .node .statement (.seq [
    .choice [
      .seq [keywords ["namespace", "module"], .sameLine,
        .choice [string, .seq [name, .star (.seq [operator ".", name])]]],
      .seq [keyword "global", .ahead (operator "\x7b")]],
    .choice [block, semicolon]])

def ambientDeclaration : Expr :=
  .node .ambient (.seq [keyword "declare", .sameLine,
    .choice [functionSignature d, classDeclaration d, typeDeclaration, namespaceDeclaration,
      variableDeclaration d]])

/-! ### Modules -/

def importAttributes : Expr :=
  .opt (.seq [keywords ["with", "assert"], .call .object])

def importAlias : Expr :=
  .seq [keyword "import", .opt (.seq [keyword "type", .ahead name]), name, operator "=", expression,
    semicolon]

def importStatement : Expr :=
  .node .statement (.choice [
    onlyIf d.typed importAlias,
    .seq [keyword "import", .notAhead (operators ["(", "."]),
      .star (.choice [word, operators [",", "*"], curlyGroup]), string, importAttributes, semicolon]])

/-- Behind `export default` of a class or function without a name a semicolon belongs to the
statement, wherever it stands. -/
def namelessEnd : Expr :=
  .opt (.choice [operator ";", onlyIf d.typed .lineTail])

def namelessFunction : Expr :=
  .seq [.node .functionDecl (.seq [functionHead, callable d]), namelessEnd d]

def namelessClass : Expr :=
  .seq [.node .classDecl (.seq [classHead d, classTail d]), namelessEnd d]

def defaultExport : Expr :=
  .seq [keyword "default",
    .choice [functionDeclaration d, namelessFunction d, classDeclaration d, namelessClass d,
      onlyIf d.typed (.choice [functionSignature d, typeDeclaration]),
      .seq [.node .expression assignment, semicolon]]]

def namedExport : Expr :=
  .choice [functionDeclaration d, classDeclaration d,
    onlyIf d.typed (.choice [functionSignature d, ambientDeclaration d, typeDeclaration,
      namespaceDeclaration, .node .statement importAlias]),
    variableDeclaration d]

/-- Lists of names, re-exports and the assignment of a whole module. -/
def exportClause : Expr :=
  .seq [
    .choice [
      .seq [operator "*", .opt (.seq [keyword "as", .choice [word, string]])],
      .seq [optIf d.typed (keyword "type"), .choice [curlyGroup,
        .seq [operator "*", .opt (.seq [keyword "as", .choice [word, string]])]]],
      .seq [operator "=", .node .expression assignment],
      .seq [keyword "as", keyword "namespace", word]],
    .opt (.seq [keyword "from", string, importAttributes]),
    semicolon]

def exportStatement : Expr :=
  .node .exported (.seq [decorators, keyword "export",
    .choice [defaultExport d, namedExport d, exportClause d]])

/-! ### Control -/

def ifStatement : Expr :=
  .node .ifStatement (.seq [keyword "if", parens expression, statement,
    .opt (.seq [keyword "else", statement])])

def forEachStatement : Expr :=
  .node .statement (.seq [keyword "for", .opt (keyword "await"),
    parens (.seq [
      .choice [.seq [variableKind, bindingTarget, returnType d], .call .access],
      keywords ["in", "of"], expression]),
    statement])

def forStatement : Expr :=
  .node .forStatement (.seq [keyword "for",
    parens (.seq [.opt (.choice [bindings d false, .call (.expression false)]), operator ";",
      .opt expression, operator ";", .opt expression]),
    statement])

def whileStatement : Expr :=
  .node .whileStatement (.seq [keyword "while", parens expression, statement])

def doStatement : Expr :=
  .node .statement (.seq [keyword "do", statement, keyword "while", parens expression,
    .opt (operator ";")])

def switchStatement : Expr :=
  .node .statement (.seq [keyword "switch", parens expression,
    braces (.star (.choice [.seq [keyword "case", expression, operator ":"],
      .seq [keyword "default", operator ":"], statement, stray]))])

def tryStatement : Expr :=
  .node .statement (.seq [keyword "try", block,
    .opt (.seq [keyword "catch", .opt (parens (.seq [bindingTarget, returnType d])), block]),
    .opt (.seq [keyword "finally", block])])

def jumpStatement : Expr :=
  .node .statement (.choice [
    .seq [keyword "return", .opt (.seq [.sameLine, expression]), semicolon],
    .seq [keyword "throw", expression, semicolon],
    .seq [keywords ["break", "continue"], .opt (.seq [.sameLine, name]), semicolon],
    .seq [keyword "debugger", semicolon],
    .seq [keyword "with", parens expression, statement]])

def labelStatement : Expr :=
  .node .statement (.seq [name, operator ":", statement])

def expressionStatement : Expr :=
  .seq [.node .expression expression, semicolon]

def blockRule : Expr :=
  .node .block (braces (.star (.choice [statement, stray])))

def statementRule : Expr :=
  .choice [
    block, operator ";", ifStatement, forEachStatement d, forStatement d, whileStatement,
    doStatement, switchStatement, tryStatement d, jumpStatement,
    functionDeclaration d, onlyIf d.typed (functionSignature d), exportStatement d,
    classDeclaration d, importStatement d,
    onlyIf d.typed (.choice [ambientDeclaration d, typeDeclaration, namespaceDeclaration]),
    variableDeclaration d, labelStatement, expressionStatement]

def programRule : Expr :=
  .seq [.opt (.tight .interpreterLine), .star (.choice [statement, stray, operator "\x7d"])]

end CodeHealth.Source.Grammar
