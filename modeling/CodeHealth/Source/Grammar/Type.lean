import CodeHealth.Source.Grammar.Basic

/-!
# Types

The extent of type annotations. What stands in brackets is read as balanced tokens, but for computed
names: no unit begins in a type, and a branch can stand there only in an expression.
-/

namespace CodeHealth.Source.Grammar

def type : Expr := .call .type

def angles : Expr := .call .angles

def group : Expr := .call .group

/-- Tokens that need no balance. -/
def plainToken : Expr :=
  .choice [string, .call .typeTemplate, number, word]

/-- What may stand inside round, square or curly brackets of a type. -/
def groupItem : Expr :=
  .choice [plainToken, group,
    .seq [.notAhead (operators [")", "]", "\x7d"]), .notAhead .atEnd, .token .anyChar]]

/-- Balanced brackets of one of the three kinds. In curly ones, square ones may hold the expression
of a computed name. -/
def groupRule : Expr :=
  .choice [parens (.star groupItem), brackets (.star groupItem),
    braces (.star (.choice [brackets assignment, groupItem]))]

/-- What may stand inside angle brackets of a type. -/
def angleItem : Expr :=
  .choice [plainToken, group, angles, operator "=>",
    .seq [.notAhead (operators [")", "]", "\x7d", "(", "[", "\x7b", ";"]),
      .notAhead (.choice [exactly "<", exactly ">"]), .notAhead .atEnd, .token .anyChar]]

/-- Type parameters or type arguments where nothing else can stand. -/
def anglesRule : Expr :=
  .seq [exactly "<", .star angleItem, exactly ">"]

/-- Type arguments where a comparison could stand as well, so that their parts must be types. -/
def typeArgumentsRule : Expr :=
  .seq [exactly "<", type, .star (.seq [operator ",", type]), .opt (operator ","), exactly ">"]

def typeTemplateRule : Expr :=
  .seq [exactly "`",
    .star (.choice [.tight .templateText, .seq [tightly "$\x7b", .star groupItem, exactly "\x7d"]]),
    tightly "`"]

def parenGroup : Expr :=
  .seq [.ahead (operator "("), group]

def squareGroup : Expr :=
  .seq [.ahead (operator "["), group]

def curlyGroup : Expr :=
  .seq [.ahead (operator "\x7b"), group]

/-- Words that come before a type and belong to it. -/
def typeOperator : Expr :=
  .seq [keywords ["keyof", "unique", "readonly", "infer", "typeof", "asserts", "new", "abstract"],
    .sameLine,
    .ahead (.choice [word, string, number, exactly "(", exactly "[", exactly "\x7b", exactly "<",
      exactly "`"])]

def typeCore : Expr :=
  .choice [
    .seq [.opt angles, parenGroup, operator "=>", type],
    group, .call .typeTemplate, string, number, .seq [operator "-", number],
    .seq [keyword "import", parenGroup], word]

def typeTail : Expr :=
  .choice [.seq [operator ".", word], .seq [.sameLine, angles], .seq [.sameLine, squareGroup],
    .seq [.sameLine, keyword "is", type]]

def typeOperand : Expr :=
  .seq [.opt (operators ["|", "&"]), .star typeOperator, typeCore, .star typeTail]

def typeRule : Expr :=
  .seq [typeOperand, .star (.seq [operators ["|", "&"], typeOperand]),
    .opt (.seq [keyword "extends", type,
      .opt (.seq [operator "?", type, operator ":", type])])]

/-- A type annotation. -/
def annotation : Expr :=
  .seq [operator ":", type]

end CodeHealth.Source.Grammar
