import CodeHealth.CodeUnit
import CodeHealth.Severity

/-!
# Findings

What a review finds is a violation at a place. The rule and the wording follow from the violation.
-/

namespace CodeHealth

inductive Rule
  | analysisError | complexity | dependencyCycle | duplication | godClass | largeFile | readability
  | sideEffects | size | singleResponsibility | testability
  deriving DecidableEq, Repr

namespace Rule

def code : Rule → String
  | .analysisError => "analysis-error"
  | .complexity => "complexity"
  | .dependencyCycle => "dependency-cycle"
  | .duplication => "duplication"
  | .godClass => "god-class"
  | .largeFile => "large-file"
  | .readability => "readability"
  | .sideEffects => "side-effects"
  | .size => "size"
  | .singleResponsibility => "srp"
  | .testability => "testability"

/-- All rules, in the order of their codes. -/
def all : List Rule :=
  [.analysisError, .complexity, .dependencyCycle, .duplication, .godClass, .largeFile, .readability,
   .sideEffects, .size, .singleResponsibility, .testability]

end Rule

/-- Whether a unit is a function or a class, as far as wording goes. -/
inductive UnitKind
  | function | classLike
  deriving DecidableEq, Repr

namespace UnitKind

def name : UnitKind → String
  | .function => "function"
  | .classLike => "class"

def plural : UnitKind → String
  | .function => "functions"
  | .classLike => "classes"

end UnitKind

def CodeUnit.kind (u : CodeUnit) : UnitKind :=
  if u.isFunction then .function else .classLike

inductive Violation
  | poorReadability (score : Nat)
  | largeUnit (kind : UnitKind) (lines : Nat)
  | highComplexity (kind : UnitKind) (complexity : Int)
  | manyMethods (methods : Nat)
  | mixedConcerns (kind : UnitKind) (concerns : List Text)
  | repetition
  | untestable
  | sideEffects
  | referenceLoop (names : List Text)
  | similarTo (name : Text)
  /-- Coarse findings about a part of a document that could not be read. -/
  | largeRange
  | consoleUse
  | largeFile
  | unreadable (message : Text)
  deriving DecidableEq, Repr

namespace Violation

def rule : Violation → Rule
  | .poorReadability _ => .readability
  | .largeUnit .. | .largeRange => .size
  | .highComplexity .. => .complexity
  | .manyMethods _ => .godClass
  | .mixedConcerns .. => .singleResponsibility
  | .repetition | .similarTo _ => .duplication
  | .untestable => .testability
  | .sideEffects | .consoleUse => .sideEffects
  | .referenceLoop _ => .dependencyCycle
  | .largeFile => .largeFile
  | .unreadable _ => .analysisError

/-- A loop is written with its first name repeated at the end. -/
def loopText (names : List Text) : String :=
  " -> ".intercalate ((names ++ names.take 1).map String.ofList)

def message : Violation → String
  | .poorReadability score =>
    s!"Poor readability: Use meaningful names, consistent formatting. Score: {score}/100"
  | .largeUnit k n => s!"Large {k.name}: {n} lines. Consider breaking into smaller {k.plural}."
  | .highComplexity k n =>
    s!"High complexity: Cyclomatic {n}. Refactor into smaller {k.plural} or use a strategy pattern."
  | .manyMethods n => s!"God class: {n} methods. Possible SRP violation."
  | .mixedConcerns k tags =>
    let listed := ", ".intercalate (tags.map String.ofList)
    s!"SRP Violation: {k.name} handles multiple concerns - {listed}. Split into separate {k.plural}."
  | .repetition => "Code duplication detected. Extract to shared method."
  | .untestable => "Code not easily testable (tight coupling, globals)."
  | .sideEffects => "Unexpected side effects."
  | .referenceLoop names =>
    s!"Dependency cycle detected: {loopText names}. Refactor to break loops."
  | .similarTo n => s!"Code duplication: Similar logic to function {String.ofList n}."
  | .largeRange => "Large code unit detected. Consider breaking into smaller units."
  | .consoleUse => "Console usage detected. Consider proper logging."
  | .largeFile => "Large file detected. Consider splitting into smaller modules."
  | .unreadable m => s!"Analysis error: {String.ofList m}"

end Violation

structure Finding where
  violation : Violation
  severity : Severity
  start : Int
  stop : Int
  deriving DecidableEq, Repr

/-- A file that could not be read, or not in the usual way. -/
structure FileError where
  file : Text
  message : Text
  deriving DecidableEq, Repr

end CodeHealth
