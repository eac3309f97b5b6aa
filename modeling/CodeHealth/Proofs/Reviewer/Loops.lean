import CodeHealth.Proofs.Reference
import CodeHealth.Reviewer

/-!
# Loops in a review

A review reports a loop of references exactly if there is one, and what it reports is one.
-/

namespace CodeHealth

theorem Violation.rule_eq_dependencyCycle_iff {v : Violation} :
    v.rule = .dependencyCycle ↔ ∃ names, v = .referenceLoop names := by
  cases v <;> simp [Violation.rule]

namespace Reviewer

section Policy

variable {α π : Type} [Scalar α] [Policy π] (r : Reviewer α π)

theorem mem_check {condition : Bool} {v w : Violation} :
    w ∈ check condition v ↔ condition = true ∧ w = v := by
  cases condition <;> simp [check]

/-- A unit by itself is never in a loop. -/
theorem rule_ne_of_mem_violations {u : CodeUnit} {v : Violation} (hv : v ∈ r.violations u) :
    v.rule ≠ .dependencyCycle := by
  simp only [violations, List.mem_append, mem_check] at hv
  rcases hv with ((((((hv | hv) | hv) | hv) | hv) | hv) | hv) | hv <;>
    (rw [hv.2]; simp [Violation.rule])

omit [Scalar α] [Policy π] in
theorem mem_reviewLoops {units : List CodeUnit} {length : Int} {f : Finding} :
    f ∈ r.reviewLoops units length ↔
      ∃ names ∈ (CodeUnit.referenceGraph units).loops,
        r.finding 0 length (.referenceLoop names) = f := by
  simp [reviewLoops]

/-- The findings about loops are those that the search for loops gives. -/
theorem mem_reviewLoops_iff {units : List CodeUnit} {length : Int} {f : Finding} :
    f ∈ r.reviewLoops units length ↔
      f ∈ r.reviewUnits units length ∧ f.violation.rule = .dependencyCycle := by
  constructor
  · intro hf
    obtain ⟨names, -, rfl⟩ := (r.mem_reviewLoops).mp hf
    exact ⟨List.mem_append_left _ (List.mem_append_right _ hf), rfl⟩
  · rintro ⟨hf, hrule⟩
    rcases List.mem_append.mp hf with hf | hf
    · rcases List.mem_append.mp hf with hf | hf
      · obtain ⟨u, -, hf⟩ := List.mem_flatMap.mp hf
        obtain ⟨v, hv, rfl⟩ := List.mem_map.mp hf
        exact absurd hrule (r.rule_ne_of_mem_violations hv)
      · exact hf
    · obtain ⟨p, -, hf⟩ := List.mem_flatMap.mp hf
      simp only [reviewPair, List.mem_cons, List.not_mem_nil, or_false] at hf
      rcases hf with rfl | rfl
      · exact absurd hrule (by simp [finding, Violation.rule])
      · exact absurd hrule (by simp [finding, Violation.rule])

omit [Scalar α] [Policy π] in
theorem exists_mem_reviewLoops_iff {units : List CodeUnit} {length : Int}
    (hd : (units.map CodeUnit.display).Nodup) :
    (∃ f, f ∈ r.reviewLoops units length) ↔
      ∃ us : List CodeUnit, (∀ u ∈ us, u ∈ units) ∧
        IsClosedWalk (fun u v ↦ u.references v = true) us := by
  rw [← CodeUnit.exists_isClosedWalk_referenceGraph_iff hd]
  constructor
  · rintro ⟨f, hf⟩
    obtain ⟨names, hnames, -⟩ := (r.mem_reviewLoops).mp hf
    exact ⟨names, Digraph.isClosedWalk_of_mem_loops hnames⟩
  · rintro ⟨w, hw⟩
    obtain ⟨names, hnames, -⟩ := Digraph.exists_mem_loops_of_isClosedWalk hw
    exact ⟨_, (r.mem_reviewLoops).mpr ⟨names, hnames, rfl⟩⟩

end Policy

variable {α : Type} [Scalar α] (r : Reviewer α)

/-- For units that are displayed under different names, a loop is reported exactly if units refer to
one another in a circle; and a loop reported has at least two names, each of a unit and each
mentioned in the text of the unit before it. -/
theorem reviewUnits_loops_iff (units : List CodeUnit) (length : Int)
    (hd : (units.map CodeUnit.display).Nodup) :
    ((∃ f ∈ r.reviewUnits units length, f.violation.rule = .dependencyCycle) ↔
      ∃ us : List CodeUnit, 2 ≤ us.length ∧ (∀ u ∈ us, u ∈ units) ∧
        IsClosedWalk (fun u v ↦ u.references v = true) us) ∧
    ∀ f ∈ r.reviewUnits units length, ∀ names, f.violation = .referenceLoop names →
      2 ≤ names.length ∧ names.Nodup ∧ (∀ n ∈ names, ∃ u ∈ units, u.display = n) ∧
        ∀ a b, Traverses names a b → ∃ u ∈ units, u.display = a ∧ b <:+: u.text := by
  constructor
  · simp only [← r.mem_reviewLoops_iff, r.exists_mem_reviewLoops_iff hd]
    constructor
    · rintro ⟨us, hus, hw⟩
      refine ⟨us, hw.two_le_length fun u hu ↦ ?_, hus, hw⟩
      exact CodeUnit.display_ne_of_references hu rfl
    · rintro ⟨us, -, hus, hw⟩
      exact ⟨us, hus, hw⟩
  · intro f hf names hnames
    have hrule : f.violation.rule = .dependencyCycle :=
      Violation.rule_eq_dependencyCycle_iff.mpr ⟨names, hnames⟩
    obtain ⟨names', hmem, rfl⟩ := (r.mem_reviewLoops).mp (r.mem_reviewLoops_iff.mpr ⟨hf, hrule⟩)
    obtain rfl : names' = names := Violation.referenceLoop.inj hnames
    exact CodeUnit.spec_of_mem_loops_referenceGraph hd hmem

/-- Two functions that call each other, and a nameless one that calls both. -/
def callers : List CodeUnit :=
  [⟨some ['f'], 0, 3, ['g', '(', ')'], .function 0⟩,
   ⟨some ['g'], 4, 7, ['f', '(', ')'], .function 0⟩,
   ⟨none, 8, 10, ['f', 'g'], .function 0⟩]

theorem reviewUnits_loops_iff_callers :
    (callers.map CodeUnit.display).Nodup ∧
      ∃ f ∈ Reviewer.reviewUnits (⟨Thresholds.standard, .warning, [], readDocument⟩ : Reviewer Rat)
        callers 10, f.violation.rule = .dependencyCycle :=
  ⟨by decide, (reviewUnits_loops_iff _ callers 10 (by decide)).1.mpr
    ⟨callers.take 2, by decide, by decide, by decide⟩⟩

end Reviewer

end CodeHealth
