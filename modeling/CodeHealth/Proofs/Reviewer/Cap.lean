import CodeHealth.Proofs.Reviewer.Pairs
import CodeHealth.Proofs.Scalar

/-!
# Functions over the cap

Normal forms longer than the cap are not to be compared.  They count as not similar at all, which is
no more than any threshold that is a number and passes the checks; so no couple over the cap is
reported.  What is not a number passes the checks as well, though, and no similarity is at most
that: then every couple is reported.
-/

namespace CodeHealth

section Cap

variable {α : Type} [Scalar α]

theorem Thresholds.validate_eq_ok_iff {t : Thresholds α} :
    t.validate = .ok t ↔ t.fault? = none := by
  cases h : t.fault? <;> simp [validate, h]

theorem Thresholds.of_fault?_eq_none {t : Thresholds α} (h : t.fault? = none) :
    Scalar.outsideUnit t.minSimilarity = false ∧ 0 ≤ t.similarityCap := by
  grind [fault?]

/-- Whether the normal forms of both functions are within the cap. -/
def Comparison.admits (c : Comparison α) (left right : CodeUnit) : Bool :=
  decide ((normalForm left.text).length ≤ c.cap) && decide ((normalForm right.text).length ≤ c.cap)

theorem Comparison.similarity_of_not_admits {c : Comparison α} {u v : CodeUnit}
    (h : c.admits u v = false) : (similarity c.cap u.text v.text : α) = Scalar.ofNat 0 := by
  apply similarity_of_not_withinCap
  rw [WithinCap, not_and_or]
  simpa only [admits, Bool.and_eq_false_iff, decide_eq_false_iff_not] using h

end Cap

namespace Reviewer

section Validated

variable {α π : Type} [Scalar α] {r : Reviewer α π}

/-- Thresholds that pass their own checks pass those of the comparison. -/
theorem validate_comparison (h : r.thresholds.fault? = none) :
    r.comparison.validate = .ok r.comparison := by
  obtain ⟨hratio, hcap⟩ := Thresholds.of_fault?_eq_none h
  exact r.comparison.validate_eq_ok hratio hcap

/-- Where nothing is said about the couples that do not count, they can be left out. -/
theorem flatMap_reviewCouple_filter {p : CodeUnit × CodeUnit → Bool}
    (hp : ∀ c, p c = false → r.reviewCouple c = []) (cs : List (CodeUnit × CodeUnit)) :
    (cs.filter p).flatMap r.reviewCouple = cs.flatMap r.reviewCouple := by
  induction cs with
  | nil => rfl
  | cons c cs ih =>
    cases hc : p c with
    | false => rw [List.filter_cons_of_neg (by simp [hc]), List.flatMap_cons, hp c hc, ih]; rfl
    | true => rw [List.filter_cons_of_pos hc, List.flatMap_cons, List.flatMap_cons, ih]

end Validated

section Floats

variable {π : Type} {r : Reviewer Float π}

theorem reviewCouple_of_not_admits (h : r.thresholds.fault? = none)
    (hnumber : r.thresholds.minSimilarity.isNaN = false) {p : CodeUnit × CodeUnit}
    (hp : r.comparison.admits p.1 p.2 = false) : r.reviewCouple p = [] := by
  have hle : Scalar.le (Scalar.ofNat 0) r.comparison.threshold = true := by
    rw [comparison, Scalar.ofNat_zero_le (Thresholds.of_fault?_eq_none h).1, hnumber]
    rfl
  rw [reviewCouple, Comparison.isSimilar, Comparison.similarity_of_not_admits hp, hle]
  rfl

theorem reviewCouple_of_isNaN (hnan : r.thresholds.minSimilarity.isNaN = true)
    (p : CodeUnit × CodeUnit) :
    r.reviewCouple p = r.reviewPair ⟨p.1, p.2, similarity r.comparison.cap p.1.text p.2.text⟩ := by
  have hle : Scalar.le (similarity r.comparison.cap p.1.text p.2.text) r.comparison.threshold =
      false := Scalar.le_of_isNaN _ hnan
  rw [reviewCouple, Comparison.isSimilar, hle]
  rfl

/-- With thresholds that pass the checks, the comparison passes its own.  If the least similarity is
a number, only couples within the cap are reviewed, and if it is not, every couple is reported. -/
theorem reviewPairs_of_validate (h : r.thresholds.validate = .ok r.thresholds)
    (units : List CodeUnit) :
    r.comparison.validate = .ok r.comparison ∧
    (r.thresholds.minSimilarity.isNaN = false →
      r.reviewPairs units =
        ((couples (units.filter CodeUnit.isFunction)).filter fun p ↦
          r.comparison.admits p.1 p.2).flatMap r.reviewCouple) ∧
    (r.thresholds.minSimilarity.isNaN = true →
      r.reviewPairs units =
        (couples (units.filter CodeUnit.isFunction)).flatMap fun p ↦
          r.reviewPair ⟨p.1, p.2, similarity r.comparison.cap p.1.text p.2.text⟩) := by
  have hfault := Thresholds.validate_eq_ok_iff.mp h
  refine ⟨validate_comparison hfault, fun hnumber ↦ ?_, fun hnan ↦ ?_⟩
  · rw [reviewPairs_eq_flatMap_couples, flatMap_reviewCouple_filter]
    intro p hp
    exact reviewCouple_of_not_admits hfault hnumber hp
  · rw [reviewPairs_eq_flatMap_couples]
    congr 1
    funext p
    exact reviewCouple_of_isNaN hnan p

end Floats

/-- A reviewer who compares normal forms of up to five characters, and reports what is more similar
than the threshold. -/
def cappedReviewer (threshold : Float) : Reviewer Float where
  thresholds := { Thresholds.standard with minSimilarity := threshold, similarityCap := 5 }
  severity := .warning
  taxonomy := []

/-- Two functions with nothing in them, whose normal forms have ten characters. -/
def emptyFunctions : List CodeUnit :=
  [⟨some "Alpha".toList, 0, 19, "function Alpha() {}".toList, .function 0⟩,
   ⟨some "Beta".toList, 20, 38, "function Beta() {}".toList, .function 0⟩]

/-- Under a threshold of one half, functions over the cap are not reported. -/
theorem reviewPairs_of_validate_half :
    (cappedReviewer 0.5).thresholds.validate = .ok (cappedReviewer 0.5).thresholds ∧
    (cappedReviewer 0.5).thresholds.minSimilarity.isNaN = false ∧
    (cappedReviewer 0.5).reviewPairs emptyFunctions = [] := by
  have hvalid : (cappedReviewer 0.5).thresholds.validate = .ok (cappedReviewer 0.5).thresholds :=
    Thresholds.validate_eq_ok_iff.mpr (by decide +kernel)
  have hnumber : (cappedReviewer 0.5).thresholds.minSimilarity.isNaN = false := by decide +kernel
  refine ⟨hvalid, hnumber, ?_⟩
  rw [(reviewPairs_of_validate hvalid emptyFunctions).2.1 hnumber]
  decide +kernel

/-- Under a threshold that is not a number they are, although the thresholds pass the checks. -/
theorem reviewPairs_over_cap :
    (cappedReviewer (0.0 / 0.0)).thresholds.validate = .ok (cappedReviewer (0.0 / 0.0)).thresholds ∧
    (∀ p ∈ couples emptyFunctions,
      (cappedReviewer (0.0 / 0.0)).comparison.admits p.1 p.2 = false) ∧
    (cappedReviewer (0.0 / 0.0)).reviewPairs emptyFunctions =
      [⟨.similarTo "Beta".toList, .warning, 0, 19⟩,
       ⟨.similarTo "Alpha".toList, .warning, 20, 38⟩] := by
  refine ⟨Thresholds.validate_eq_ok_iff.mpr ?_, ?_, ?_⟩ <;> decide +kernel

end Reviewer

end CodeHealth
