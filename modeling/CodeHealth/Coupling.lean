import CodeHealth.Text.Regex

/-!
# Coupling

Lexical signs that a unit is hard to test or has effects. Each sign is an expression that is looked
for in the text of the unit.
-/

namespace CodeHealth.Coupling

/-- `new` and the word that is made. -/
def instantiation : Regex :=
  .inOrder [.wordBoundary, .text "new", .plus Text.isAsciiBlank, .plus Text.isWordChar]

def globalName : Regex :=
  .alt (.word "global") (.alt (.word "window") (.word "document"))

/-- Output to the console. -/
def consoleCall : Regex :=
  .inOrder [.wordBoundary, .text "console", .text ".",
    .alt (.text "log") (.alt (.text "error") (.text "warn")), .wordBoundary]

/-- An operator that assigns; a comparison or an arrow is none. -/
def assignment : Regex :=
  .inOrder [.opt (.one "+-*/".toList.contains), .text "=", .notAhead (.one "=>".toList.contains)]

/-- An assignment to a name that is not a member of anything. -/
def bareAssignment : Regex :=
  .inOrder [.alt .lineStart (.one (· != '.')), .wordBoundary, .one Text.isWordStart,
    .many Text.isWordChar, .many Text.isAsciiBlank, assignment]

/-- A member of `this` before what `next` matches. -/
def memberBefore (next : Regex) : Regex :=
  .inOrder [.wordBoundary, .text "this", .text ".", .plus Text.isWordChar,
    .many Text.isAsciiBlank, next]

/-- A member of `this` before an equals sign. -/
def fieldAssignment : Regex :=
  memberBefore (.text "=")

/-- Free of instantiation, globals, console output and bare assignment. -/
def isTestable (t : Text) : Bool :=
  if instantiation.isFoundIn t then false
  else if globalName.isFoundIn t then false
  else !(consoleCall.isFoundIn t || bareAssignment.isFoundIn t)

def hasSideEffects (t : Text) : Bool :=
  fieldAssignment.isFoundIn t || consoleCall.isFoundIn t || bareAssignment.isFoundIn t

end CodeHealth.Coupling
