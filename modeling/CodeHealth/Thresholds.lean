import CodeHealth.Scalar

/-!
# Thresholds

The limits that a review measures units against, and the order in which they are checked.
-/

namespace CodeHealth

structure Thresholds (α : Type) where
  maxLines : Int
  maxComplexity : Int
  maxMethods : Int
  minReadability : Int
  minUniqueRatio : α
  minSimilarity : α
  /-- Normal forms longer than this are not compared. -/
  similarityCap : Int
  deriving Repr

/-- The limits by name. -/
inductive Limit
  | maxLines | maxComplexity | maxMethods | minReadability | minUniqueRatio | minSimilarity
  | similarityCap
  deriving DecidableEq, Repr

def Limit.name : Limit → String
  | .maxLines => "max_lines"
  | .maxComplexity => "max_complexity"
  | .maxMethods => "max_methods"
  | .minReadability => "min_readability"
  | .minUniqueRatio => "min_unique_ratio"
  | .minSimilarity => "min_similarity"
  | .similarityCap => "similarity_length_cap"

inductive ThresholdFault
  | notARatio (limit : Limit)
  | notAPercentage (limit : Limit)
  | negative (limit : Limit)
  deriving DecidableEq, Repr

def ThresholdFault.message : ThresholdFault → String
  | .notARatio l => s!"{l.name} must be between 0.0 and 1.0."
  | .notAPercentage l => s!"{l.name} must be between 0 and 100."
  | .negative l => s!"{l.name} must be >= 0."

namespace Thresholds

variable {α : Type} [Scalar α]

def standard : Thresholds α where
  maxLines := 15
  maxComplexity := 8
  maxMethods := 10
  minReadability := 90
  minUniqueRatio := Scalar.div (Scalar.ofNat 4) (Scalar.ofNat 5)
  minSimilarity := Scalar.div (Scalar.ofNat 3) (Scalar.ofNat 5)
  similarityCap := 1000

/-- The first limit that makes no sense: ratios come first, then the percentage, then counts. -/
def fault? (t : Thresholds α) : Option ThresholdFault :=
  if Scalar.outsideUnit t.minUniqueRatio then some (.notARatio .minUniqueRatio)
  else if Scalar.outsideUnit t.minSimilarity then some (.notARatio .minSimilarity)
  else if t.minReadability < 0 || 100 < t.minReadability then some (.notAPercentage .minReadability)
  else if t.maxLines < 0 then some (.negative .maxLines)
  else if t.maxComplexity < 0 then some (.negative .maxComplexity)
  else if t.maxMethods < 0 then some (.negative .maxMethods)
  else if t.similarityCap < 0 then some (.negative .similarityCap)
  else none

def validate (t : Thresholds α) : Except ThresholdFault (Thresholds α) :=
  match t.fault? with
  | some e => .error e
  | none => .ok t

end Thresholds

end CodeHealth
