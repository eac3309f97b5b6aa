import CodeHealth.CodeUnit
import CodeHealth.EditDistance
import CodeHealth.NormalForm
import CodeHealth.Scalar
import CodeHealth.Text.Lines

/-!
# Duplication

Repetition inside a unit is judged by its lines, similarity of functions by the edit distance of
their normal forms.
-/

namespace CodeHealth

variable {α : Type} [Scalar α]

/-- Whether the share of distinct lines is below `ratio`, white space around lines and blank lines
aside. -/
def isRepetitive (ratio : α) (t : Text) : Bool :=
  let ls := t.significantLines
  Scalar.lt (Scalar.ofNat ls.eraseDups.length) (Scalar.mul (Scalar.ofNat ls.length) ratio)

/-- One less the edit distance of the normal forms per character of the longer one. Texts whose
normal form is longer than `cap` are taken as unlike any other. -/
def similarity (cap : Int) (left right : Text) : α :=
  let l := normalForm left
  let r := normalForm right
  if cap < l.length || cap < r.length then Scalar.ofNat 0
  else if l.isEmpty && r.isEmpty then Scalar.ofNat 1
  else
    Scalar.sub (Scalar.ofNat 1)
      (Scalar.div (Scalar.ofNat (editDistance l r)) (Scalar.ofNat (max l.length r.length)))

/-- Two functions and how similar they are. -/
structure SimilarPair (α : Type) where
  left : CodeUnit
  right : CodeUnit
  similarity : α

/-- The bounds of a comparison of functions. -/
structure Comparison (α : Type) where
  threshold : α
  cap : Int

inductive ComparisonFault
  | threshold | cap
  deriving DecidableEq, Repr

def ComparisonFault.message : ComparisonFault → String
  | .threshold => "similarity_threshold must be between 0.0 and 1.0."
  | .cap => "length_cap must be >= 0."

namespace Comparison

def validate (c : Comparison α) : Except ComparisonFault (Comparison α) :=
  if Scalar.outsideUnit c.threshold then .error .threshold
  else if c.cap < 0 then .error .cap
  else .ok c

/-- The pair, unless it is at most as similar as the threshold. -/
def pair? (c : Comparison α) (left right : CodeUnit) : Option (SimilarPair α) :=
  let s : α := similarity c.cap left.text right.text
  if Scalar.le s c.threshold then none else some ⟨left, right, s⟩

/-- The similar pairs of a list, each once, in the order of the first and then the second. -/
def pairs (c : Comparison α) : List CodeUnit → List (SimilarPair α)
  | [] => []
  | u :: rest => rest.filterMap (c.pair? u) ++ pairs c rest

end Comparison

end CodeHealth
