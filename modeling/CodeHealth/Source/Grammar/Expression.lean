import CodeHealth.Source.Grammar.Type

/-!
# Expressions

Operators are read as a chain without precedence, which does not matter for where an expression
ends. Parentheses are read once, as arguments, operands or parameters alike, and what follows them
decides.
-/

namespace CodeHealth.Source.Grammar

variable (d : Dialect)

def returnType : Expr :=
  optIf d.typed annotation

def typeParameters : Expr :=
  optIf d.typed angles

def bindingTarget : Expr :=
  .choice [name, .call .object, .call .array]

/-- Parameters, result type and body of anything callable but arrow functions. -/
def callable : Expr :=
  .seq [typeParameters d, .call .parameters, returnType d, .node .body block]

def parameterModifier : Expr :=
  .seq [keywords ["public", "private", "protected", "readonly", "override"],
    .ahead (.choice [name, operators ["\x7b", "[", "..."]])]

def parameter : Expr :=
  .seq [.star (.call .decorator), optIf d.typed (.star parameterModifier), .opt (operator "..."),
    bindingTarget, optIf d.typed (operator "?"), returnType d,
    .opt (.seq [operator "=", assignment])]

def parametersRule : Expr :=
  .node .parameters (parens (commaList (parameter d)))

/-- The keywords before the name of a function. -/
def functionHead : Expr :=
  .seq [.opt (.seq [keyword "async", .sameLine, .ahead (keyword "function")]), keyword "function",
    .opt (operator "*")]

def functionExprRule : Expr :=
  .node .functionDecl (.seq [functionHead, .opt (.node .name name), callable d])

/-! ### Parts of a chain -/

def templateRule : Expr :=
  .seq [exactly "`",
    .star (.choice [.tight .templateText, .seq [tightly "$\x7b", expression, exactly "\x7d"]]),
    tightly "`"]

def arrayRule : Expr :=
  .node .expression (brackets (.star (.choice [operators [",", "..."], assignment])))

def argumentsRule : Expr :=
  .node .expression (parens (.star (.choice [operators [",", "..."], assignment])))

/-- The name of a property. -/
def key : Expr :=
  .choice [word, string, number, .token .privateName, brackets assignment]

def objectModifier : Expr :=
  .seq [keywords ["async", "get", "set"],
    .notAhead (operators ["(", ",", ":", "=", "\x7d", "<"])]

def property : Expr :=
  .choice [
    .seq [operator "...", assignment],
    .seq [.star objectModifier, .opt (operator "*"), key,
      .choice [callable d, .seq [operator ":", assignment], .opt (.seq [operator "=", assignment])]]]

def objectRule : Expr :=
  .node .expression (braces (commaList (property d)))

/-- Arguments, an operand or the parameters of an arrow function. -/
def parenthesisedItem : Expr :=
  .seq [.opt (operator "..."), assignment, optIf d.typed (operator "?"), returnType d,
    .opt (.seq [operator "=", assignment])]

def parenthesisedRule : Expr :=
  .node .expression (parens (.star (.choice [operator ",", parenthesisedItem d])))

def tagAttribute : Expr :=
  .choice [
    braces (.seq [operator "...", assignment]),
    .seq [.token .tagName,
      .opt (.seq [exactly "=",
        .choice [.token .tagString, braces expression, .call .element]])]]

def elementChild : Expr :=
  .choice [
    .tight .tagText,
    .seq [.notAhead (tightly "</"), .call .element],
    braces (.seq [.opt (operator "..."), .opt expression])]

def closingTag : Expr :=
  .seq [exactly "<", exactly "/", .opt (.token .tagName), exactly ">"]

def elementRule : Expr :=
  .seq [exactly "<",
    .choice [
      .seq [exactly ">", .star elementChild, closingTag],
      .seq [.token .tagName, typeParameters d, .star tagAttribute,
        .choice [
          .seq [exactly "/", exactly ">"],
          .seq [exactly ">", .star elementChild, closingTag]]]]]

def primary : Expr :=
  .choice [
    .call .functionExpr, .call .classExpr, .call .template, string, number, .token .regex,
    .token .privateName, .call .array, .call .object, .call .parenthesised,
    .seq [keyword "new", operator ".", word], keyword "import",
    onlyIf d.markup (.call .element), name]

/-- Type arguments of a call, or of an expression that ends with them. -/
def instantiation : Expr :=
  .seq [.call .typeArguments,
    .ahead (.choice [operators ["(", ")", "]", ",", ";", ":", "\x7d", "."], exactly "`", .atEnd])]

/-- What may follow an operand: members, arguments, indices. -/
def selector : Expr :=
  .choice [
    .seq [operator ".", .choice [word, .token .privateName]],
    .seq [operator "?.",
      .choice [word, .token .privateName, .call .arguments, brackets expression, .call .template,
        onlyIf d.typed (.seq [.call .typeArguments, .call .arguments])]],
    brackets expression, .call .arguments, .call .template,
    onlyIf d.typed (.seq [.sameLine, operator "!"]),
    onlyIf d.typed instantiation]

def selectors : Expr :=
  .seq [.star (selector d), .opt (.seq [.sameLine, operators ["++", "--"]])]

def accessRule : Expr :=
  .seq [primary d, selectors d]

def unaryOperator : Expr :=
  .choice [
    operators ["!", "~", "+", "-", "++", "--"],
    keywords ["typeof", "void", "delete"],
    .seq [keyword "new", .notAhead (operator ".")],
    .seq [keyword "await",
      .notAhead (.choice [operators [")", ",", ";", "=", "=>", "]", "\x7d", ".", ":", "?"], .atEnd])],
    onlyIf (d.typed && !d.markup) (.seq [exactly "<", type, exactly ">"])]

def operandRule : Expr :=
  .seq [.star (unaryOperator d), .call .access]

/-! ### Chains -/

def binaryOperators : List String :=
  ["==", "!=", "===", "!==", "<", ">", "<=", ">=", "+", "-", "*", "/", "%", "**", "<<", ">>", ">>>",
   "&", "|", "^", "&&", "||", "??"]

def assignmentOperators : List String :=
  ["=", "+=", "-=", "*=", "/=", "%=", "**=", "<<=", ">>=", ">>>=", "&=", "|=", "^=", "&&=", "||=",
   "??="]

/-- What may follow an operand in a chain. A question mark before one of `: , ) =` marks an optional
parameter. -/
def link (withIn resultType : Bool) : Expr :=
  .choice [
    .seq [operators assignmentOperators, .call (.assignment withIn resultType)],
    .seq [operators binaryOperators, .call .operand],
    .seq [keyword "instanceof", .call .operand],
    onlyIf withIn (.seq [keyword "in", .call .operand]),
    .seq [operator "?", .notAhead (operators [":", ",", ")", "="]),
      .choice [
        .seq [.call (.assignment true true), operator ":", .call (.assignment withIn resultType)],
        .seq [.call (.assignment true false), operator ":", .call (.assignment withIn resultType)]]],
    onlyIf d.typed (.seq [.sameLine, keywords ["as", "satisfies"], type])]

def links (withIn resultType : Bool) : Expr :=
  .star (link d withIn resultType)

def arrowBody (withIn resultType : Bool) : Expr :=
  .choice [block, .call (.assignment withIn resultType)]

/-- The arrow behind parameters in parentheses, with the body. -/
def arrow (withIn resultType : Bool) : Expr :=
  .seq [optIf resultType (returnType d), operator "=>", arrowBody withIn resultType]

def assignmentRule (withIn resultType : Bool) : Expr :=
  .choice [
    .seq [name, operator "=>", arrowBody withIn resultType],
    .seq [keyword "async", .sameLine, name, operator "=>", arrowBody withIn resultType],
    .seq [keyword "async", .sameLine, typeParameters d, .call .parenthesised,
      arrow d withIn resultType],
    onlyIf d.typed (.seq [angles, .call .parenthesised, arrow d withIn resultType]),
    .seq [.call .parenthesised,
      .choice [arrow d withIn resultType,
        .seq [selectors d, links d withIn resultType]]],
    .seq [keyword "yield", .opt (.seq [.sameLine, operator "*"]),
      .opt (.seq [.sameLine, .call (.assignment withIn resultType)])],
    .seq [.call .operand, links d withIn resultType]]

def expressionRule (withIn : Bool) : Expr :=
  .seq [.call (.assignment withIn true),
    .star (.seq [operator ",", .call (.assignment withIn true)])]

end CodeHealth.Source.Grammar
