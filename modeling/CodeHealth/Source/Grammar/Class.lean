import CodeHealth.Source.Grammar.Expression

/-!
# Classes and their members

A word before the name of a member is a modifier unless the member could end there: before a
bracket, a type or a value, and, for a word that may itself be a name, before a line break.
-/

namespace CodeHealth.Source.Grammar

variable (d : Dialect)

def decoratorRule : Expr :=
  .node .decorator (.seq [operator "@",
    .choice [.call .parenthesised, .seq [word, .star (.seq [operator ".", word])]],
    optIf d.typed (.call .typeArguments), .star (.call .arguments)])

def decorators : Expr :=
  .star (.call .decorator)

/-- What ends a member whose name has just been read. -/
def memberEnd : Expr :=
  .choice [operators ["(", "=", ";", ":", "?", "!", ",", "\x7d", "<"], .atEnd]

def modifierOf (ws : List String) : Expr :=
  .seq [keywords ws, .sameLine, .notAhead memberEnd]

/-- Modifiers, `abstract` apart. -/
def modifier : Expr :=
  if d.typed then
    .choice [
      modifierOf ["public", "private", "protected", "static", "override", "readonly", "declare",
        "async", "get", "set"],
      .seq [keyword "accessor", .notAhead memberEnd]]
  else modifierOf ["static", "async", "get", "set", "accessor"]

def abstractModifier : Expr :=
  .seq [keyword "abstract", .notAhead memberEnd]

def memberName : Expr :=
  .node .name key

/-- Name, parameters and result type of a method, behind its modifiers. -/
def methodHead : Expr :=
  .seq [.opt (operator "*"), memberName, optIf d.typed (operator "?"), typeParameters d,
    .call .parameters, returnType d]

def methodMember : Expr :=
  .node .method (.seq [optIf (!d.typed) decorators, .star (modifier d), methodHead d,
    .node .body block])

def signatureMember : Expr :=
  .node .methodSignature (.seq [.star (modifier d), methodHead d])

def abstractMember : Expr :=
  .node .abstractSignature (.seq [.star (modifier d), abstractModifier, .star (modifier d),
    methodHead d, .notAhead (operator "\x7b")])

def indexMember : Expr :=
  .node .field (.seq [.star (modifier d), brackets (.seq [word, annotation]), .opt annotation])

def fieldMember : Expr :=
  .node .field (.seq [decorators,
    .star (.choice [modifier d, onlyIf d.typed abstractModifier]), memberName,
    optIf d.typed (operators ["?", "!"]), returnType d, .opt (.seq [operator "=", assignment]),
    .choice [semicolon, .ahead (operator ",")]])

def staticBlock : Expr :=
  .node .statement (.seq [keyword "static", .ahead (operator "\x7b"), block])

def member : Expr :=
  .choice [
    operators [";", ","], staticBlock,
    onlyIf d.typed (abstractMember d), methodMember d, onlyIf d.typed (signatureMember d),
    onlyIf d.typed (indexMember d), fieldMember d,
    onlyIf d.typed (.call .decorator), block, stray]

def membersRule : Expr :=
  .node .members (braces (.star (member d)))

def heritage : Expr :=
  .seq [
    .opt (.seq [keyword "extends", .node .expression (.call .access), typeParameters d]),
    optIf d.typed (.seq [keyword "implements", type, .star (.seq [operator ",", type])])]

/-- All of a class behind its name. -/
def classTail : Expr :=
  .seq [typeParameters d, heritage d, .call .members]

def className : Expr :=
  .node .name (.seq [.notAhead (keyword "implements"), name])

def classHead : Expr :=
  .seq [decorators, optIf d.typed (.seq [keyword "abstract", .ahead (keyword "class")]),
    keyword "class"]

def classExprRule : Expr :=
  .node .classDecl (.seq [classHead d, .opt className, classTail d])

end CodeHealth.Source.Grammar
