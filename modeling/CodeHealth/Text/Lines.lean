import CodeHealth.Text.Basic

/-!
# Lines and offsets

Lines are separated by line feeds, so a text always has at least one line. Line numbers count
from one; the number of a line and the offsets inside it determine each other.
-/

namespace CodeHealth.Text

/-- The lines of a text. The line feeds are dropped, and joining the lines with them gives the text
back. -/
def lines (t : Text) : List Text :=
  t.cutAt '\n'

def lineCount (t : Text) : Nat :=
  t.lines.length

/-- The lines that hold more than white space, trimmed, in order. -/
def significantLines (t : Text) : List Text :=
  (t.lines.map trim).filter fun line => !line.isEmpty

/-- A line number that the document does not have. -/
structure LineFault where
  line : Int
  lineCount : Nat
  deriving DecidableEq, Repr

def LineFault.message (e : LineFault) : String :=
  s!"Line {e.line} is outside the document (1-{e.lineCount})"

/-- The number of characters in `ls`, each line counted with its line feed. -/
def extent : List Text → Nat
  | [] => 0
  | line :: rest => line.length + 1 + extent rest

/-- The lines before line `n` together with line `n` itself. -/
def splitAtLine (t : Text) (n : Int) : Except LineFault (List Text × Text) :=
  let ls := t.lines
  if n < 1 then .error ⟨n, ls.length⟩
  else
    match ls[n.toNat - 1]? with
    | some line => .ok (ls.take (n.toNat - 1), line)
    | none => .error ⟨n, ls.length⟩

/-- The offset of the first character of line `n` that is not white space, or of the end of the
line. -/
def lineOffset (t : Text) (n : Int) : Except LineFault Nat := do
  let (before, line) ← t.splitAtLine n
  return extent before + (line.takeWhile isBlank).length

/-- The offset just behind the last character of line `n`. -/
def lineEndOffset (t : Text) (n : Int) : Except LineFault Nat := do
  let (before, line) ← t.splitAtLine n
  return extent before + line.length

/-- The number of the line that the offset `i` lies on. A negative offset counts from the end. -/
def lineAt (t : Text) (i : Int) : Nat :=
  (t.slice 0 i).count '\n' + 1

end CodeHealth.Text
