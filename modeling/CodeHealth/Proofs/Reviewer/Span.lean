import CodeHealth.Proofs.Reviewer.Shape
import CodeHealth.Proofs.Text.Lines

/-!
# The lines that a finding is shown on

A finding about a unit is shown from the line on which the unit begins to the one on which it ends.
The text of the unit by itself has as many lines, so a unit is too large exactly if the finding
that says so is shown on more lines than a unit may have.
-/

namespace CodeHealth

/-- The number of lines that a finding is shown on. -/
def Located.span (l : Located) : Int :=
  l.endLine - l.startLine + 1

/-- The text of the unit is what the document has between the offsets of the unit. -/
structure CodeUnit.IsCutFrom (u : CodeUnit) (t : Text) : Prop where
  nonneg : 0 ≤ u.start
  ordered : u.start ≤ u.stop
  within : u.stop ≤ t.length
  text_eq : u.text = t.slice u.start u.stop

/-- A finding is shown on the lines that its unit has, and these are lines of the document. -/
theorem CodeUnit.IsCutFrom.span_eq {u : CodeUnit} {t file : Text} {f : Finding}
    (hu : u.IsCutFrom t) (hstart : f.start = u.start) (hstop : f.stop = u.stop) :
    (f.locate file t).startLine ≤ (f.locate file t).endLine ∧
      (f.locate file t).endLine ≤ t.lineCount ∧ (f.locate file t).span = u.measure.lines := by
  obtain ⟨hnonneg, hle, -, htext⟩ := hu
  obtain ⟨a, ha⟩ := Int.eq_ofNat_of_zero_le hnonneg
  obtain ⟨b, hb⟩ := Int.eq_ofNat_of_zero_le (Int.le_trans hnonneg hle)
  rw [ha, hb] at hle htext
  have hlines : (f.locate file t).startLine + u.measure.lines = (f.locate file t).endLine + 1 := by
    show t.lineAt f.start + u.text.lineCount = t.lineAt f.stop + 1
    rw [hstart, hstop, ha, hb, htext]
    exact t.lineAt_add_lineCount_slice (Int.ofNat_le.mp hle)
  have hpos : 1 ≤ u.measure.lines := by
    show 1 ≤ u.text.lineCount
    rw [Text.lineCount_eq]
    exact Nat.le_add_left 1 _
  refine ⟨by omega, ?_, ?_⟩
  · show t.lineAt f.stop ≤ t.lineCount
    rw [hstop, hb]
    exact t.lineAt_le_lineCount b
  · rw [Located.span]
    omega

namespace Reviewer

variable {α π : Type} [Scalar α] [Policy π] (r : Reviewer α π)

theorem mem_violations_size_iff {u : CodeUnit} {v : Violation} :
    v ∈ r.violations u ∧ v.rule = .size ↔
      r.thresholds.maxLines < u.measure.lines ∧ v = .largeUnit u.kind u.measure.lines := by
  constructor
  · rintro ⟨hv, hrule⟩
    simp only [violations, List.mem_append, mem_check, decide_eq_true_eq, or_assoc] at hv
    rcases hv with ⟨-, rfl⟩ | ⟨hlines, rfl⟩ | ⟨-, rfl⟩ | ⟨-, rfl⟩ | ⟨-, rfl⟩ | ⟨-, rfl⟩ | ⟨-, rfl⟩ |
      ⟨-, rfl⟩
    · cases hrule
    · exact ⟨hlines, rfl⟩
    all_goals cases hrule
  · rintro ⟨hlines, rfl⟩
    simp [violations, mem_check, hlines, Violation.rule]

/-- A finding about a unit is shown on as many lines of the document as the unit is measured to
have; and a unit is reported as too large exactly if that finding is shown on more lines than a unit
may have. -/
theorem reviewUnit_span {t : Text} {u : CodeUnit} (hu : u.IsCutFrom t) (file : Text) (f : Finding) :
    (f ∈ r.reviewUnit u →
      1 ≤ (f.locate file t).startLine ∧
      (f.locate file t).startLine ≤ (f.locate file t).endLine ∧
      (f.locate file t).endLine ≤ t.lineCount ∧
      (f.locate file t).span = u.measure.lines) ∧
    (f ∈ r.reviewUnit u ∧ f.violation.rule = .size ↔
      f = r.finding u.start u.stop (.largeUnit u.kind u.measure.lines) ∧
      r.thresholds.maxLines < (f.locate file t).span) := by
  constructor
  · intro hf
    obtain ⟨hstart, hstop⟩ := range_of_mem_reviewUnit hf
    exact ⟨t.one_le_lineAt f.start, hu.span_eq hstart hstop⟩
  · have hspan (v : Violation) :
        ((r.finding u.start u.stop v).locate file t).span = u.measure.lines :=
      (hu.span_eq rfl rfl).2.2
    constructor
    · rintro ⟨hf, hrule⟩
      obtain ⟨v, hv, rfl⟩ := List.mem_map.mp hf
      obtain ⟨hlines, rfl⟩ := r.mem_violations_size_iff.mp ⟨hv, hrule⟩
      exact ⟨rfl, (hspan _).symm ▸ hlines⟩
    · rintro ⟨rfl, hlines⟩
      have hv := r.mem_violations_size_iff.mpr ⟨hspan _ ▸ hlines, rfl⟩
      exact ⟨List.mem_map_of_mem hv.1, rfl⟩

/-- A function on the second line of `Text.indentedText`, with the line feed behind it. -/
def indentedUnit : CodeUnit :=
  ⟨some ['b'], 2, 5, [' ', 'b', '\n'], .function 0⟩

/-- A reviewer that lets a unit have one line. -/
def briefReviewer : Reviewer Rat :=
  ⟨{ Thresholds.standard with maxLines := 1 }, .warning, [], readDocument⟩

theorem reviewUnit_span_indentedUnit :
    indentedUnit.IsCutFrom Text.indentedText ∧
    ∃ f ∈ briefReviewer.reviewUnit indentedUnit, f.violation = .largeUnit .function 2 ∧
      (f.locate [] Text.indentedText).span = 2 := by
  have hu : indentedUnit.IsCutFrom Text.indentedText :=
    ⟨by decide, by decide, by decide, by decide⟩
  obtain ⟨hmem, hsize⟩ := briefReviewer.reviewUnit_span hu []
    (briefReviewer.finding 2 5 (.largeUnit .function 2))
  have hf := (hsize.mpr ⟨rfl, by decide⟩).1
  exact ⟨hu, _, hf, rfl, (hmem hf).2.2.2⟩

end Reviewer

end CodeHealth
