import CodeHealth.Text.Regex

/-!
# Normal forms

The normal form of a text hides how identifiers are spelt and how the text is laid out, so that
texts of the same structure have the same form.
-/

namespace CodeHealth

namespace NormalForm

def identifier : Regex :=
  .inOrder [.wordBoundary, .one Text.isWordStart, .many Text.isWordChar, .wordBoundary]

def blanks : Regex :=
  .plus Text.isBlank

end NormalForm

/-- The normal form of a text: each identifier becomes `id`, and then white space one space. -/
def normalForm (t : Text) : Text :=
  (NormalForm.blanks.replace [' '] (NormalForm.identifier.replace ['i', 'd'] t)).trim

end CodeHealth
