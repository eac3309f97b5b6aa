import CodeHealth.CodeUnit
import CodeHealth.Text.Lines

/-!
# Measures of a unit

Size and complexity, and a score for how readable name and layout are.
-/

namespace CodeHealth

structure Measure where
  lines : Nat
  methods : Nat
  complexity : Int
  deriving DecidableEq, Repr

/-- The branches of all methods together. -/
def Method.totalBranches : List Method → Int
  | [] => 0
  | m :: rest => m.branches + totalBranches rest

namespace CodeUnit

def measure (u : CodeUnit) : Measure where
  lines := u.text.lineCount
  methods :=
    match u.shape with
    | .function _ => 1
    | .classOf ms => ms.length
  complexity :=
    match u.shape with
    | .function branches => 1 + branches
    | .classOf ms => 1 + Method.totalBranches ms

/-- The widths of the white space that the lines begin with. -/
def indents (t : Text) : List Nat :=
  t.lines.map fun line => (line.takeWhile Text.isBlank).length

/-- Whether the mean indentation is less than two or more than four characters. -/
def isBadlyIndented (t : Text) : Bool :=
  let widths := indents t
  let total := widths.foldl (· + ·) 0
  decide (total < 2 * widths.length) || decide (4 * widths.length < total)

/-- A letter of ASCII followed by letters and digits of ASCII. -/
def isPlainName : Text → Bool
  | [] => false
  | c :: rest => c.isAlpha && rest.all Char.isAlphanum

/-- What is taken off the full score, and when. -/
def deductions (u : CodeUnit) : List (Bool × Nat) :=
  let name := u.name.getD []
  [(!isPlainName name, 20),
   (decide (name.length < 3), 10),
   (name.head?.any Char.isLower, 20),
   (isBadlyIndented u.text, 15)]

/-- The readability of a unit, of at most a hundred points. -/
def readability (u : CodeUnit) : Nat :=
  u.deductions.foldl (fun score (applies, points) => if applies then score - points else score) 100

end CodeUnit

end CodeHealth
