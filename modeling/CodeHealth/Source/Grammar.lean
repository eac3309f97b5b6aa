import CodeHealth.Source.Grammar.Statement

/-!
# The grammar of a dialect
-/

namespace CodeHealth.Source

open Grammar in
/-- The parsing expression of each rule. -/
def grammar (d : Dialect) : Rule → Peg Rule
  | .program => programRule
  | .statement => statementRule d
  | .block => blockRule
  | .expression withIn => expressionRule withIn
  | .assignment withIn resultType => assignmentRule d withIn resultType
  | .operand => operandRule d
  | .access => accessRule d
  | .parenthesised => parenthesisedRule d
  | .arguments => argumentsRule
  | .object => objectRule d
  | .array => arrayRule
  | .template => templateRule
  | .element => elementRule d
  | .functionExpr => functionExprRule d
  | .classExpr => classExprRule d
  | .decorator => decoratorRule d
  | .parameters => parametersRule d
  | .members => membersRule d
  | .type => typeRule
  | .typeArguments => typeArgumentsRule
  | .angles => anglesRule
  | .group => groupRule
  | .typeTemplate => typeTemplateRule

/-- The tree of a document. -/
def Dialect.read (d : Dialect) (t : Text) : Tree :=
  Peg.read (grammar d) .program t

end CodeHealth.Source
