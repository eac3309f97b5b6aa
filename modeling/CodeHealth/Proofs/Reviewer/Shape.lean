import CodeHealth.Proofs.Reviewer.Pairs
import Mathlib.Algebra.Group.Nat.Even
import Mathlib.Data.List.Flatten

/-!
# The shape of a review

Each unit goes through the same checks in the same order.  So a review of units that lie in a
document in order is made of one part for each unit, a part for loops and a part for pairs; and
where the document could not be read, of at most one finding about its size and one for each error.
-/

namespace CodeHealth

/-- The finding lies in a document of the given length, its rule has a known code, and it has the
severity given unless it is about an error. -/
structure Finding.Conforms (f : Finding) (length : Nat) (severity : Severity) : Prop where
  nonneg : 0 ≤ f.start
  ordered : f.start ≤ f.stop
  within : f.stop ≤ length
  known : f.violation.rule.code ∈ Rule.all.map Rule.code
  severe : f.severity = if f.violation.rule = .analysisError then .error else severity

theorem Rule.mem_all (rule : Rule) : rule ∈ all := by
  cases rule <;> decide

namespace Reviewer

open scoped List

variable {α π : Type} [Scalar α] [Policy π] (r : Reviewer α π)

/-! ## The checks of a unit -/

/-- The rules that a unit by itself can break, in their order. -/
def unitRules : List Rule :=
  [.readability, .size, .complexity, .godClass, .singleResponsibility, .duplication, .testability,
   .sideEffects]

/-- The checks of a unit in their order, each with the violation that it is for. -/
def checks (r : Reviewer α π) (u : CodeUnit) : List (Bool × Violation) :=
  let t := r.thresholds
  let m := u.measure
  let concerns := Policy.concerns r.taxonomy u
  [(decide (u.readability < t.minReadability), .poorReadability u.readability),
   (decide (t.maxLines < m.lines), .largeUnit u.kind m.lines),
   (decide (t.maxComplexity < m.complexity), .highComplexity u.kind m.complexity),
   (!u.isFunction && decide (t.maxMethods < m.methods), .manyMethods m.methods),
   (decide (1 < concerns.length), .mixedConcerns u.kind concerns),
   (isRepetitive t.minUniqueRatio u.text, .repetition),
   (!Policy.isTestable r.taxonomy u, .untestable),
   (Policy.hasSideEffects r.taxonomy u, .sideEffects)]

theorem violations_eq_flatMap_checks (u : CodeUnit) :
    r.violations u = (r.checks u).flatMap fun c ↦ check c.1 c.2 := by
  simp only [violations, checks, List.flatMap_cons, List.flatMap_nil, List.append_nil,
    List.append_assoc]

theorem map_rule_checks (u : CodeUnit) :
    (r.checks u).map (fun c ↦ c.2.rule) = unitRules := rfl

/-- A unit breaks some of the rules, each at most once and in their order. -/
theorem map_rule_violations_sublist (u : CodeUnit) :
    (r.violations u).map Violation.rule <+ unitRules := by
  rw [violations_eq_flatMap_checks, ← r.map_rule_checks u, List.map_flatMap, List.map_eq_flatMap]
  apply List.Sublist.flatMap_right
  intro c _
  rw [check]
  split
  · exact .refl _
  · exact List.nil_sublist _

theorem rule_mem_of_mem_violations {u : CodeUnit} {v : Violation} (hv : v ∈ r.violations u) :
    v.rule ∈ unitRules :=
  (r.map_rule_violations_sublist u).subset (List.mem_map_of_mem hv)

/-! ## The parts of a review -/

/-- The units lie in a document of the given length, in the order of their starts. -/
structure InOrder (length : Nat) (units : List CodeUnit) : Prop where
  within : ∀ u ∈ units, 0 ≤ u.start ∧ u.start ≤ u.stop ∧ u.stop ≤ length
  ordered : units.Pairwise fun u v ↦ u.start ≤ v.start

section Parts

variable {r} {length : Nat} {units : List CodeUnit} {f : Finding}

omit [Scalar α] [Policy π] in
theorem conforms_finding {start stop : Int} {v : Violation} (hstart : 0 ≤ start)
    (hstop : start ≤ stop) (hlength : stop ≤ length) (hv : v.rule ≠ .analysisError) :
    (r.finding start stop v).Conforms length r.severity where
  nonneg := hstart
  ordered := hstop
  within := hlength
  known := List.mem_map_of_mem v.rule.mem_all
  severe := (if_neg hv).symm

theorem range_of_mem_reviewUnit {u : CodeUnit} (hf : f ∈ r.reviewUnit u) :
    f.start = u.start ∧ f.stop = u.stop := by
  obtain ⟨v, -, rfl⟩ := List.mem_map.mp hf
  exact ⟨rfl, rfl⟩

theorem InOrder.pairwise_start (h : InOrder length units) :
    (units.flatMap r.reviewUnit).Pairwise fun f g ↦ f.start ≤ g.start := by
  rw [List.pairwise_flatMap]
  constructor
  · intro u _
    refine List.pairwise_of_forall_mem_list fun f hf g hg ↦ ?_
    exact Int.le_of_eq ((range_of_mem_reviewUnit hf).1.trans (range_of_mem_reviewUnit hg).1.symm)
  · refine h.ordered.imp fun {u v} huv f hf g hg ↦ ?_
    rw [(range_of_mem_reviewUnit hf).1, (range_of_mem_reviewUnit hg).1]
    exact huv

theorem InOrder.conforms_reviewUnits (h : InOrder length units)
    (hf : f ∈ r.reviewUnits units length) : f.Conforms length r.severity := by
  rcases List.mem_append.mp hf with hf | hf
  · rcases List.mem_append.mp hf with hf | hf
    · obtain ⟨u, hu, hf⟩ := List.mem_flatMap.mp hf
      obtain ⟨v, hv, rfl⟩ := List.mem_map.mp hf
      obtain ⟨hstart, hstop, hlength⟩ := h.within u hu
      apply conforms_finding hstart hstop hlength
      intro hrule
      exact absurd (hrule ▸ r.rule_mem_of_mem_violations hv) (by decide)
    · obtain ⟨names, -, rfl⟩ := r.mem_reviewLoops.mp hf
      exact conforms_finding (Int.le_refl 0) (Int.natCast_nonneg length) (Int.le_refl _)
        (by simp [Violation.rule])
  · obtain ⟨u, hu, v, -, rfl⟩ := r.exists_of_mem_reviewPairs hf
    obtain ⟨hstart, hstop, hlength⟩ := h.within u hu
    exact conforms_finding hstart hstop hlength (by simp [Violation.rule])

omit [Policy π] in
/-- Pairs are reported from both sides. -/
theorem even_length_reviewPairs (units : List CodeUnit) : Even (r.reviewPairs units).length := by
  rw [reviewPairs_eq_flatMap_couples]
  induction couples (units.filter CodeUnit.isFunction) with
  | nil => exact Even.zero
  | cons p ps ih =>
    rw [List.flatMap_cons, List.length_append]
    refine Even.add ?_ ih
    rw [reviewCouple]
    split
    · exact ⟨1, rfl⟩
    · exact Even.zero

/-- What a review of units is made of: a part for each unit, about its range and with some of the
rules for units in their order; a part for loops; and a part for pairs, with two findings each. -/
structure Parts (units : List CodeUnit) (findings : List Finding) (perUnit : List (List Finding))
    (loops pairs : List Finding) : Prop where
  append : findings = perUnit.flatten ++ loops ++ pairs
  eachUnit : List.Forall₂ (fun u fs ↦ (∀ f ∈ fs, f.start = u.start ∧ f.stop = u.stop) ∧
    fs.map (fun f ↦ f.violation.rule) <+ unitRules) units perUnit
  eachLoop : ∀ f ∈ loops, f.violation.rule = .dependencyCycle
  eachPair : ∀ f ∈ pairs, f.violation.rule = .duplication
  evenPairs : Even pairs.length

theorem parts_reviewUnits (r : Reviewer α π) (units : List CodeUnit) (length : Int) :
    Parts units (r.reviewUnits units length) (units.map r.reviewUnit)
      (r.reviewLoops units length) (r.reviewPairs units) where
  append := by
    rw [← List.flatMap_def]
    rfl
  eachUnit := by
    rw [List.forall₂_map_right_iff, List.forall₂_same]
    intro u _
    refine ⟨fun f hf ↦ range_of_mem_reviewUnit hf, ?_⟩
    rw [reviewUnit, List.map_map]
    exact r.map_rule_violations_sublist u
  eachLoop := by
    intro f hf
    obtain ⟨names, -, rfl⟩ := r.mem_reviewLoops.mp hf
    rfl
  eachPair := by
    intro f hf
    obtain ⟨u, -, v, -, rfl⟩ := r.exists_of_mem_reviewPairs hf
    rfl
  evenPairs := even_length_reviewPairs units

end Parts

/-! ## Documents -/

variable {t : Text} {language : Option Text} {file : Text} {reading : Reading}

theorem reviewFile_of_errors_eq_nil (hread : r.read t language file = reading)
    (h : reading.errors = []) :
    (r.reviewFile t language file).1 = r.reviewUnits reading.units t.length := by
  simp [reviewFile, hread, h]

theorem reviewFile_of_errors_ne_nil (hread : r.read t language file = reading)
    (h : reading.errors ≠ []) :
    (r.reviewFile t language file).1 = r.coarseFindings t reading.errors := by
  simp [reviewFile, hread, h]

omit [Scalar α] [Policy π] in
theorem conforms_of_mem_coarseFindings {errors : List FileError} {f : Finding}
    (hf : f ∈ r.coarseFindings t errors) : f.Conforms t.length r.severity := by
  rcases List.mem_append.mp hf with hf | hf
  · obtain ⟨v, hv, rfl⟩ := List.mem_map.mp hf
    obtain ⟨-, rfl⟩ := mem_check.mp hv
    exact conforms_finding (Int.le_refl 0) (Int.natCast_nonneg _) (Int.le_refl _)
      (by simp [Violation.rule])
  · obtain ⟨e, -, rfl⟩ := List.mem_map.mp hf
    exact ⟨Int.le_refl 0, Int.le_refl 0, Int.natCast_nonneg _,
      List.mem_map_of_mem (Rule.mem_all _), rfl⟩

/-- If the units read lie in the document in order, all findings conform to it; if it was read, they
are parts for the units, in order, then loops, then pairs; and if not, at most one about its size,
and then one for each error. -/
theorem reviewFile_shape (hread : r.read t language file = reading)
    (hunits : InOrder t.length reading.units) :
    (∀ f ∈ (r.reviewFile t language file).1, f.Conforms t.length r.severity) ∧
    (reading.errors = [] → ∃ perUnit loops pairs,
      Parts reading.units (r.reviewFile t language file).1 perUnit loops pairs ∧
      perUnit.flatten.Pairwise fun f g ↦ f.start ≤ g.start) ∧
    (reading.errors ≠ [] → ∃ large unreadable,
      (r.reviewFile t language file).1 = large ++ unreadable ∧ large.length ≤ 1 ∧
      (∀ f ∈ large, f.violation.rule = .largeFile) ∧
      List.Forall₂ (fun e f ↦ f.violation = .unreadable e.message) reading.errors unreadable) := by
  refine ⟨fun f hf ↦ ?_, fun herrors ↦ ?_, fun herrors ↦ ?_⟩
  · by_cases herrors : reading.errors = []
    · rw [r.reviewFile_of_errors_eq_nil hread herrors] at hf
      exact hunits.conforms_reviewUnits hf
    · rw [r.reviewFile_of_errors_ne_nil hread herrors] at hf
      exact r.conforms_of_mem_coarseFindings hf
  · rw [r.reviewFile_of_errors_eq_nil hread herrors]
    refine ⟨_, _, _, parts_reviewUnits r reading.units t.length, ?_⟩
    rw [← List.flatMap_def]
    exact hunits.pairwise_start
  · rw [r.reviewFile_of_errors_ne_nil hread herrors]
    refine ⟨_, _, rfl, ?_, ?_, ?_⟩
    · rw [List.length_map, check]
      split <;> simp
    · intro f hf
      obtain ⟨v, hv, rfl⟩ := List.mem_map.mp hf
      rw [(mem_check.mp hv).2]
      rfl
    · rw [List.forall₂_map_right_iff, List.forall₂_same]
      intro e _
      rfl

/-- A reviewer who reads the same in every document. -/
def readingAlways (reading : Reading) : Reviewer Rat :=
  { exactReviewer with read := fun _ _ _ ↦ reading }

/-- A document that cannot be read, for two reasons. -/
def unread : Reading :=
  ⟨[], [⟨documentLabel, ['a']⟩, ⟨documentLabel, ['b']⟩]⟩

/-- A document of ten characters with the two callers and the nameless function, and a large one
that cannot be read. The first has findings about each unit, a loop and a similar pair, the second
about its size and both errors. -/
theorem reviewFile_shape_callers :
    InOrder 10 callers ∧
    ((readingAlways ⟨callers, []⟩).reviewFile (List.replicate 10 'x') none documentLabel).1.map
        (fun f ↦ (f.violation.rule, f.start, f.stop)) =
      [(.readability, 0, 3), (.readability, 4, 7), (.readability, 8, 10),
       (.dependencyCycle, 0, 10), (.duplication, 0, 3), (.duplication, 4, 7)] ∧
    (∃ perUnit loops pairs, Parts callers
        ((readingAlways ⟨callers, []⟩).reviewFile (List.replicate 10 'x') none documentLabel).1
        perUnit loops pairs ∧
      perUnit.flatten.Pairwise fun f g ↦ f.start ≤ g.start) ∧
    InOrder 1001 unread.units ∧
    ((readingAlways unread).reviewFile (List.replicate 1001 'x') none documentLabel).1.map
        (fun f ↦ (f.violation.rule, f.start, f.stop)) =
      [(.largeFile, 0, 1001), (.analysisError, 0, 0), (.analysisError, 0, 0)] ∧
    ∃ large unreadable,
      ((readingAlways unread).reviewFile (List.replicate 1001 'x') none documentLabel).1 =
        large ++ unreadable ∧ large.length ≤ 1 ∧
      (∀ f ∈ large, f.violation.rule = .largeFile) ∧
      List.Forall₂ (fun e f ↦ f.violation = .unreadable e.message) unread.errors unreadable := by
  have hcallers : InOrder (List.replicate 10 'x').length callers := ⟨by decide, by decide⟩
  have hunread (length : Nat) : InOrder length unread.units :=
    ⟨fun u hu ↦ absurd hu List.not_mem_nil, .nil⟩
  refine ⟨hcallers, by decide +kernel, ?_, hunread 1001, by decide +kernel, ?_⟩
  · exact (reviewFile_shape (readingAlways ⟨callers, []⟩) rfl hcallers).2.1 rfl
  · exact (reviewFile_shape (readingAlways unread) rfl (hunread _)).2.2 (List.cons_ne_nil _ _)

end Reviewer

end CodeHealth
