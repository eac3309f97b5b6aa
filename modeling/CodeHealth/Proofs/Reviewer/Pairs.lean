import CodeHealth.Proofs.Duplication
import CodeHealth.Proofs.Reviewer.Loops

/-!
# Pairs in a review, and the order of units

What a review says about similar functions it says about each couple by itself, and the same in
either order of the couple.  So reviewing the units in another order finds the same, apart from how
the loops among them are written; and whether there are any is the same too.
-/

namespace CodeHealth.Reviewer

open scoped List

variable {α π : Type} [Scalar α] [Policy π] (r : Reviewer α π)

/-! ## Couples -/

/-- What a review says about a couple of functions: nothing, or of each that it is similar to the
other. -/
def reviewCouple (r : Reviewer α π) (p : CodeUnit × CodeUnit) : List Finding :=
  if r.comparison.isSimilar p.1 p.2 then
    [r.finding p.1.start p.1.stop (.similarTo p.2.display),
     r.finding p.2.start p.2.stop (.similarTo p.1.display)]
  else []

omit [Policy π] in
theorem reviewPairs_eq_flatMap_couples (units : List CodeUnit) :
    r.reviewPairs units =
      (couples (units.filter CodeUnit.isFunction)).flatMap r.reviewCouple := by
  rw [reviewPairs, Comparison.pairs_eq_filterMap_couples]
  induction couples (units.filter CodeUnit.isFunction) with
  | nil => rfl
  | cons p ps ih =>
    rw [List.flatMap_cons, ← ih, List.filterMap_cons, Comparison.pair?_eq, reviewCouple]
    cases r.comparison.isSimilar p.1 p.2 with
    | false => rfl
    | true => rfl

omit [Policy π] in
theorem reviewCouple_perm_swap (p : CodeUnit × CodeUnit) :
    r.reviewCouple p ~ r.reviewCouple p.swap := by
  rw [reviewCouple, reviewCouple, Prod.fst_swap, Prod.snd_swap, Comparison.isSimilar_comm]
  split
  · exact .swap _ _ _
  · exact .nil

omit [Policy π] in
theorem exists_of_mem_reviewPairs {units : List CodeUnit} {f : Finding}
    (hf : f ∈ r.reviewPairs units) :
    ∃ u ∈ units, ∃ v ∈ units, f = r.finding u.start u.stop (.similarTo v.display) := by
  rw [reviewPairs_eq_flatMap_couples] at hf
  obtain ⟨p, hp, hf⟩ := List.mem_flatMap.mp hf
  obtain ⟨hleft, hright⟩ := mem_of_mem_couples hp
  rw [reviewCouple] at hf
  split at hf
  · simp only [List.mem_cons, List.not_mem_nil, or_false] at hf
    rcases hf with rfl | rfl
    · exact ⟨p.1, List.mem_of_mem_filter hleft, p.2, List.mem_of_mem_filter hright, rfl⟩
    · exact ⟨p.2, List.mem_of_mem_filter hright, p.1, List.mem_of_mem_filter hleft, rfl⟩
  · exact absurd hf List.not_mem_nil

/-! ## The order of units -/

/-- Without the loops, a review says what it says about each unit and about each couple. -/
theorem filter_reviewUnits (units : List CodeUnit) (length : Int) :
    (r.reviewUnits units length).filter (fun f ↦ f.violation.rule ≠ .dependencyCycle) =
      units.flatMap r.reviewUnit ++ r.reviewPairs units := by
  have hunits : (units.flatMap r.reviewUnit).filter
      (fun f ↦ f.violation.rule ≠ .dependencyCycle) = units.flatMap r.reviewUnit := by
    rw [List.filter_eq_self]
    intro f hf
    obtain ⟨u, -, hf⟩ := List.mem_flatMap.mp hf
    obtain ⟨v, hv, rfl⟩ := List.mem_map.mp hf
    exact decide_eq_true (r.rule_ne_of_mem_violations hv)
  have hloops : (r.reviewLoops units length).filter
      (fun f ↦ f.violation.rule ≠ .dependencyCycle) = [] := by
    rw [List.filter_eq_nil_iff]
    intro f hf
    simp [((r.mem_reviewLoops_iff).mp hf).2]
  have hpairs : (r.reviewPairs units).filter
      (fun f ↦ f.violation.rule ≠ .dependencyCycle) = r.reviewPairs units := by
    rw [List.filter_eq_self]
    intro f hf
    obtain ⟨u, -, v, -, rfl⟩ := r.exists_of_mem_reviewPairs hf
    exact decide_eq_true (by simp [finding, Violation.rule])
  rw [reviewUnits, List.filter_append, List.filter_append, hunits, hloops, hpairs, List.append_nil]

/-- In another order of the units, a review finds the same apart from loops, as often; and if the
units are displayed under different names, it finds a loop in one order exactly if in the other. -/
theorem reviewUnits_perm {units units' : List CodeUnit} (h : units ~ units') (length : Int) :
    (r.reviewUnits units length).filter (fun f ↦ f.violation.rule ≠ .dependencyCycle) ~
      (r.reviewUnits units' length).filter (fun f ↦ f.violation.rule ≠ .dependencyCycle) ∧
    ((units.map CodeUnit.display).Nodup →
      ((∃ f ∈ r.reviewUnits units length, f.violation.rule = .dependencyCycle) ↔
        ∃ f ∈ r.reviewUnits units' length, f.violation.rule = .dependencyCycle)) := by
  constructor
  · rw [filter_reviewUnits, filter_reviewUnits, reviewPairs_eq_flatMap_couples,
      reviewPairs_eq_flatMap_couples]
    apply List.Perm.append
    · exact h.flatMap_right _
    · exact flatMap_couples_perm (h.filter _) r.reviewCouple_perm_swap
  · intro hd
    have hd' : (units'.map CodeUnit.display).Nodup := (h.map CodeUnit.display).nodup_iff.mp hd
    simp only [← r.mem_reviewLoops_iff, r.exists_mem_reviewLoops_iff hd,
      r.exists_mem_reviewLoops_iff hd', h.mem_iff]

/-- A reviewer with the standard thresholds who computes exactly and knows no concerns. -/
def exactReviewer : Reviewer Rat :=
  ⟨Thresholds.standard, .warning, [], readDocument⟩

/-- The two callers and the nameless function, from the last to the first: their loop is found too,
and so is every similar pair. -/
theorem reviewUnits_perm_callers :
    callers ~ callers.reverse ∧ (callers.map CodeUnit.display).Nodup ∧
    (exactReviewer.reviewUnits callers 10).filter (fun f ↦ f.violation.rule ≠ .dependencyCycle) ~
      (exactReviewer.reviewUnits callers.reverse 10).filter
        (fun f ↦ f.violation.rule ≠ .dependencyCycle) ∧
    ∃ f ∈ exactReviewer.reviewUnits callers.reverse 10, f.violation.rule = .dependencyCycle := by
  have hperm : callers ~ callers.reverse := (List.reverse_perm _).symm
  have hnames : (callers.map CodeUnit.display).Nodup := by decide
  obtain ⟨hrest, hloops⟩ := reviewUnits_perm exactReviewer hperm 10
  refine ⟨hperm, hnames, hrest, (hloops hnames).mp ?_⟩
  exact ⟨⟨.referenceLoop [['f'], ['g']], .warning, 0, 10⟩, by decide +kernel, rfl⟩

end CodeHealth.Reviewer
