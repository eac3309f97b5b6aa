import CodeHealth.Source.Peg

/-!
# Rules and shorthands of the grammar

The rules are the places where the grammar refers to itself; all else is written in place. The
grammar tells apart only what units need: where declarations, members and branches begin and end.
Types are read for their extent.
-/

namespace CodeHealth.Source

/-- What a dialect adds to plain JavaScript. -/
structure Dialect where
  /-- Type annotations and declarations. -/
  typed : Bool
  /-- Tags as expressions. -/
  markup : Bool
  deriving DecidableEq, Repr

inductive Rule
  | program | statement | block
  | expression (withIn : Bool)
  /-- An expression without commas. `withIn` admits the operator `in`, and `resultType` the result
  type of an arrow function. -/
  | assignment (withIn resultType : Bool)
  | operand | access | parenthesised | arguments | object | array | template | element
  | functionExpr | classExpr | decorator | parameters | members
  | type | typeArguments | angles | group | typeTemplate
  deriving DecidableEq, Repr

namespace Grammar

abbrev Expr := Peg Rule

def keyword (w : String) : Expr :=
  .token (.keyword w.toList)

def keywords (ws : List String) : Expr :=
  .choice (ws.map keyword)

def operator (o : String) : Expr :=
  .token (.operator [o.toList])

def operators (os : List String) : Expr :=
  .token (.operator (os.map String.toList))

def exactly (t : String) : Expr :=
  .token (.exactly t.toList)

def tightly (t : String) : Expr :=
  .tight (.exactly t.toList)

def word : Expr := .token .word

def name : Expr := .token .name

def number : Expr := .token .number

def string : Expr := .token .string

/-- An expression of some dialects, which fails in the others. -/
def onlyIf (b : Bool) (p : Expr) : Expr :=
  if b then p else .choice []

/-- An optional expression of some dialects, which reads nothing in the others. -/
def optIf (b : Bool) (p : Expr) : Expr :=
  if b then .opt p else .seq []

def expression : Expr := .call (.expression true)

def assignment : Expr := .call (.assignment true true)

def block : Expr := .call .block

def commaList (p : Expr) : Expr :=
  .opt (.seq [p, .star (.seq [operator ",", p]), .opt (operator ",")])

def parens (p : Expr) : Expr :=
  .seq [operator "(", p, operator ")"]

def brackets (p : Expr) : Expr :=
  .seq [operator "[", p, operator "]"]

def braces (p : Expr) : Expr :=
  .seq [operator "\x7b", p, operator "\x7d"]

/-- The end of a statement: a semicolon, or a place where one may be left out. -/
def semicolon : Expr :=
  .choice [operator ";", .newLine, .ahead (operator "\x7d"), .atEnd]

/-- A token that fits no rule, closing braces apart. The text behind it is read on. -/
def stray : Expr :=
  .choice [string, .call .template, word, number,
    .seq [.notAhead (.choice [operator "\x7d", .atEnd]), .token .anyChar]]

end Grammar

end CodeHealth.Source
