import CodeHealth.Proofs.Duplication.Repetition
import CodeHealth.Proofs.Reviewer.Shape

/-!
# Loosening thresholds

With looser thresholds, a review in exact arithmetic finds some of what it found before, in the same
order and in the same words: a check that still fails has failed before, and so has a couple that
is still similar, since a lower cap on the length can only take similarity away.
-/

namespace CodeHealth

namespace Thresholds

/-- The second thresholds are at least as loose as the first: its upper bounds are not lower, its
lower bounds are not higher, and it compares no longer texts. -/
structure LoosenedTo (t t' : Thresholds Rat) : Prop where
  maxLines : t.maxLines ≤ t'.maxLines
  maxComplexity : t.maxComplexity ≤ t'.maxComplexity
  maxMethods : t.maxMethods ≤ t'.maxMethods
  minReadability : t'.minReadability ≤ t.minReadability
  minUniqueRatio : t'.minUniqueRatio ≤ t.minUniqueRatio
  minSimilarity : t.minSimilarity ≤ t'.minSimilarity
  similarityCap : t'.similarityCap ≤ t.similarityCap

theorem minSimilarity_nonneg {t : Thresholds Rat} (h : t.fault? = none) : 0 ≤ t.minSimilarity := by
  have hin : Scalar.outsideUnit t.minSimilarity = false := by
    rw [← Bool.not_eq_true]
    intro hout
    rw [fault?, hout] at h
    split at h <;> cases h
  rw [Scalar.outsideUnit, Bool.or_eq_false_iff] at hin
  exact not_lt.mp (of_decide_eq_false hin.1)

end Thresholds

namespace Reviewer

open scoped List

variable {π : Type} [Policy π] {r r' : Reviewer Rat π}

/-- The reviewers judge by the same policy and report with the same severity, and the thresholds of
the second are at least as loose. -/
structure LoosenedTo (r r' : Reviewer Rat π) : Prop where
  severity : r'.severity = r.severity
  taxonomy : r'.taxonomy = r.taxonomy
  thresholds : r.thresholds.LoosenedTo r'.thresholds

/-- If each check that fails has failed before, the violations have all been there before. -/
theorem flatMap_check_sublist {cs cs' : List (Bool × Violation)}
    (h : List.Forall₂ (fun c' c ↦ (c'.1 = true → c.1 = true) ∧ c'.2 = c.2) cs' cs) :
    cs'.flatMap (fun c ↦ check c.1 c.2) <+ cs.flatMap (fun c ↦ check c.1 c.2) := by
  induction h with
  | nil => exact .slnil
  | @cons c' c cs' cs hc _ ih =>
    obtain ⟨hfails, hsame⟩ := hc
    rw [List.flatMap_cons, List.flatMap_cons, hsame]
    refine List.Sublist.append ?_ ih
    cases hc' : c'.1 with
    | false => exact List.nil_sublist _
    | true => rw [hfails hc']

namespace LoosenedTo

theorem violations_sublist (h : r.LoosenedTo r') (u : CodeUnit) :
    r'.violations u <+ r.violations u := by
  have ht := h.thresholds
  rw [violations_eq_flatMap_checks, violations_eq_flatMap_checks]
  apply flatMap_check_sublist
  simp only [checks, h.taxonomy, List.forall₂_cons, List.forall₂_nil_left_iff, and_true,
    decide_eq_true_eq, Bool.and_eq_true, imp_self, true_and]
  refine ⟨?_, ?_, ?_, ?_, ?_⟩
  · exact fun hscore ↦ hscore.trans_le ht.minReadability
  · exact ht.maxLines.trans_lt
  · exact ht.maxComplexity.trans_lt
  · exact fun hmethods ↦ ⟨hmethods.1, ht.maxMethods.trans_lt hmethods.2⟩
  · exact isRepetitive_of_le ht.minUniqueRatio

omit [Policy π] in
theorem finding_eq (h : r.LoosenedTo r') : r'.finding = r.finding := by
  funext start stop v
  rw [finding, finding, h.severity]

theorem reviewUnit_sublist (h : r.LoosenedTo r') (u : CodeUnit) :
    r'.reviewUnit u <+ r.reviewUnit u := by
  rw [reviewUnit, reviewUnit, h.finding_eq]
  exact (h.violations_sublist u).map _

omit [Policy π] in
theorem reviewLoops_eq (h : r.LoosenedTo r') (units : List CodeUnit) (length : Int) :
    r'.reviewLoops units length = r.reviewLoops units length := by
  rw [reviewLoops, reviewLoops, h.finding_eq]

omit [Policy π] in
/-- What is still similar has been similar before. -/
theorem isSimilar_of_isSimilar (h : r.LoosenedTo r') (hvalid : r'.thresholds.fault? = none)
    {u v : CodeUnit} (hsimilar : r'.comparison.isSimilar u v = true) :
    r.comparison.isSimilar u v = true := by
  have hcap : r'.comparison.cap ≤ r.comparison.cap := h.thresholds.similarityCap
  have hlt : r'.comparison.threshold < similarity r'.comparison.cap u.text v.text := by
    simpa [Comparison.isSimilar, Scalar.le] using hsimilar
  have hkept : (similarity r'.comparison.cap u.text v.text : Rat) =
      similarity r.comparison.cap u.text v.text ∨
      (similarity r'.comparison.cap u.text v.text : Rat) = 0 :=
    similarity_eq_or_of_cap_le hcap u.text v.text
  have hlt' : r.comparison.threshold < similarity r.comparison.cap u.text v.text := by
    rcases hkept with heq | hzero
    · rw [heq] at hlt
      exact h.thresholds.minSimilarity.trans_lt hlt
    · -- A text beyond the cap has no similarity, which a valid threshold does not allow.
      rw [hzero] at hlt
      exact absurd hlt (not_lt.mpr (Thresholds.minSimilarity_nonneg hvalid))
  simpa [Comparison.isSimilar, Scalar.le] using hlt'

omit [Policy π] in
theorem reviewPairs_sublist (h : r.LoosenedTo r') (hvalid : r'.thresholds.fault? = none)
    (units : List CodeUnit) : r'.reviewPairs units <+ r.reviewPairs units := by
  rw [reviewPairs_eq_flatMap_couples, reviewPairs_eq_flatMap_couples]
  apply List.Sublist.flatMap_right
  intro p _
  by_cases hsimilar : r'.comparison.isSimilar p.1 p.2 = true
  · rw [reviewCouple, reviewCouple, if_pos hsimilar,
      if_pos (h.isSimilar_of_isSimilar hvalid hsimilar), h.finding_eq]
  · rw [reviewCouple, if_neg hsimilar]
    exact List.nil_sublist _

end LoosenedTo

/-- With looser and valid thresholds, a review gives a part of what it gave before, in order. -/
theorem reviewUnits_sublist_of_loosenedTo (h : r.LoosenedTo r')
    (hvalid : r'.thresholds.fault? = none) (units : List CodeUnit) (length : Int) :
    r'.reviewUnits units length <+ r.reviewUnits units length := by
  rw [reviewUnits, reviewUnits, h.reviewLoops_eq]
  apply List.Sublist.append
  · apply List.Sublist.append_right
    exact List.Sublist.flatMap_right units fun u _ ↦ h.reviewUnit_sublist u
  · exact h.reviewPairs_sublist hvalid units

/-- The exact reviewer with a lower score to reach, who compares only short texts. -/
def lenientReviewer : Reviewer Rat :=
  { exactReviewer with
    thresholds := { Thresholds.standard with minReadability := 50, similarityCap := 4 } }

/-- The scores of the two callers and the nameless function are good enough for that reviewer, who
still finds the loop and the pair. -/
theorem reviewUnits_sublist_of_loosenedTo_callers :
    exactReviewer.LoosenedTo lenientReviewer ∧ lenientReviewer.thresholds.fault? = none ∧
    lenientReviewer.reviewUnits callers 10 <+ exactReviewer.reviewUnits callers 10 ∧
    (lenientReviewer.reviewUnits callers 10).length = 3 ∧
    (exactReviewer.reviewUnits callers 10).length = 6 := by
  have hloosened : exactReviewer.LoosenedTo lenientReviewer :=
    ⟨rfl, rfl, ⟨le_rfl, le_rfl, le_rfl, by decide, le_rfl, le_rfl, by decide⟩⟩
  have hvalid : lenientReviewer.thresholds.fault? = none := by decide +kernel
  exact ⟨hloosened, hvalid, reviewUnits_sublist_of_loosenedTo hloosened hvalid callers 10,
    by decide +kernel, by decide +kernel⟩

end Reviewer

end CodeHealth
