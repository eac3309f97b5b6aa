import CodeHealth.Text.Basic

/-!
# Edit distance

The number of insertions, deletions and substitutions between two texts, row by row: the row of a
prefix holds its distances to all prefixes of the other text.
-/

namespace CodeHealth.EditDistance

/-- The entries of the next row behind `left`, for the character `c`. The row above begins with the
entry diagonal to the next one. -/
def extendRow (c : Char) (left : Nat) : Text → List Nat → List Nat
  | b :: bs, diagonal :: above :: row =>
    let entry := min (min (above + 1) (left + 1)) (diagonal + if c = b then 0 else 1)
    entry :: extendRow c entry bs (above :: row)
  | _, _ => []

/-- The row of a prefix that is longer by `c`. -/
def nextRow (other : Text) (row : List Nat) (c : Char) : List Nat :=
  let first := row.headD 0 + 1
  first :: extendRow c first other row

def firstRow (other : Text) : List Nat :=
  List.range (other.length + 1)

end CodeHealth.EditDistance

namespace CodeHealth

/-- The edit distance of two texts. -/
def editDistance (a b : Text) : Nat :=
  (a.foldl (EditDistance.nextRow b) (EditDistance.firstRow b)).getLastD 0

end CodeHealth
