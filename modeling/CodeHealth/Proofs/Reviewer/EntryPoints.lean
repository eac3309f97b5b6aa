import CodeHealth.Proofs.Reviewer.Shape

/-!
# Ways to ask for a review

A review can be asked for a document, for a document that may be unreadable, for the unit at an
offset, or for a range.  All four read the document and choose units on their own.  They agree on
what a unit breaks where the document can be read.  Where it cannot, two of them pass the errors on,
and the other two never see them: they report on whatever units there are beside the errors.
-/

namespace CodeHealth.Reviewer

variable {α π : Type} [Scalar α] [Policy π] {r : Reviewer α π}
variable {t : Text} {language : Option Text} {file : Text}

/-! ## Reading -/

/-- The units of a document do not depend on the name it goes by. -/
def UnitsAgree (r : Reviewer α π) (t : Text) (language : Option Text) (file : Text) : Prop :=
  (r.read t language documentLabel).units = (r.read t language file).units

omit [Scalar α] [Policy π] in
theorem unitsAgree_of_read_eq (h : r.read = readDocument) (t : Text) (language : Option Text)
    (file : Text) : r.UnitsAgree t language file := by
  rw [UnitsAgree, h, readDocument, readDocument]
  cases language.bind Language.ofName? with
  | none => rfl
  | some l => rfl

/-- There are no units beside an error. -/
theorem units_readDocument_of_errors (h : (readDocument t language file).errors ≠ []) :
    (readDocument t language file).units = [] := by
  rw [readDocument] at h ⊢
  cases hl : language.bind Language.ofName? with
  | none => rfl
  | some l =>
    rw [hl] at h
    exact absurd rfl h

/-! ## One unit and all of them -/

theorem reviewUnits_nil (length : Int) : r.reviewUnits [] length = [] := rfl

theorem reviewUnit_infix_reviewUnits {units : List CodeUnit} {u : CodeUnit} (hu : u ∈ units)
    (length : Int) : r.reviewUnit u <:+: r.reviewUnits units length := by
  have hinfix : r.reviewUnit u <:+: units.flatMap r.reviewUnit := by
    rw [List.flatMap_def]
    exact List.infix_of_mem_flatten (List.mem_map_of_mem hu)
  rw [reviewUnits, List.append_assoc]
  exact hinfix.trans (List.prefix_append _ _).isInfix

/-- What is said about the unit at an offset stands together in the review of the document. -/
theorem reviewAt_infix_review (offset : Int) :
    r.reviewAt t language offset <:+: r.review t language := by
  rw [reviewAt, review]
  cases hu : CodeUnit.at? (r.read t language documentLabel).units offset with
  | none => exact List.nil_infix
  | some u => exact reviewUnit_infix_reviewUnits (List.mem_of_find?_eq_some hu) t.length

/-! ## Documents that can be read and others -/

theorem reviewFile_eq_review (h : r.UnitsAgree t language file)
    (herrors : (r.read t language file).errors = []) :
    r.reviewFile t language file = (r.review t language, []) := by
  rw [reviewFile, review, h, herrors]
  rfl

theorem reviewRange_eq_reviewAt (h : r.UnitsAgree t language file)
    (herrors : (r.read t language file).errors = []) (start stop : Int) :
    r.reviewRange t language start stop file = (r.reviewAt t language start, []) := by
  rw [reviewRange, reviewAt, h, herrors]
  cases CodeUnit.at? (r.read t language file).units start with
  | none => rfl
  | some u => rfl

theorem reviewFile_errors (herrors : (r.read t language file).errors ≠ []) :
    (r.reviewFile t language file).2 = (r.read t language file).errors := by
  rw [reviewFile, if_neg (by rwa [List.isEmpty_iff])]

theorem reviewRange_errors (herrors : (r.read t language file).errors ≠ []) (start stop : Int) :
    (r.reviewRange t language start stop file).2 = (r.read t language file).errors := by
  rw [reviewRange, if_neg (by rwa [List.isEmpty_iff])]

theorem review_eq_nil (h : r.UnitsAgree t language file)
    (hunits : (r.read t language file).units = []) : r.review t language = [] := by
  rw [review, h, hunits, reviewUnits_nil]

theorem reviewAt_eq_nil (h : r.UnitsAgree t language file)
    (hunits : (r.read t language file).units = []) (offset : Int) :
    r.reviewAt t language offset = [] := by
  rw [← List.infix_nil, ← review_eq_nil h hunits]
  exact reviewAt_infix_review offset

/-- Where a document can be read, a review is the same whether it may be unreadable or not, a range
is reviewed as the unit at its start, and that stands together in the review of the document.  Where
it cannot, the errors are passed on if they are asked for; otherwise the review is about the units
beside the errors, and it is empty if there are none, as when documents are read by
`readDocument`. -/
theorem entryPoints_agree (h : r.UnitsAgree t language file) (offset : Int) :
    ((r.read t language file).errors = [] →
      r.reviewFile t language file = (r.review t language, []) ∧
      (∀ stop, r.reviewRange t language offset stop file = (r.reviewAt t language offset, [])) ∧
      r.reviewAt t language offset <:+: r.review t language) ∧
    ((r.read t language file).errors ≠ [] →
      (r.reviewFile t language file).2 = (r.read t language file).errors ∧
      (∀ stop, (r.reviewRange t language offset stop file).2 = (r.read t language file).errors) ∧
      r.review t language = r.reviewUnits (r.read t language file).units t.length ∧
      r.reviewAt t language offset <:+: r.review t language ∧
      ((r.read t language file).units = [] ∨ r.read = readDocument →
        r.review t language = [] ∧ r.reviewAt t language offset = [])) := by
  constructor
  · intro herrors
    exact ⟨reviewFile_eq_review h herrors, reviewRange_eq_reviewAt h herrors offset,
      reviewAt_infix_review offset⟩
  · intro herrors
    refine ⟨reviewFile_errors herrors, reviewRange_errors herrors offset, ?_,
      reviewAt_infix_review offset, fun hempty ↦ ?_⟩
    · rw [review, h]
    · have hunits : (r.read t language file).units = [] := by
        rcases hempty with hunits | hread
        · exact hunits
        · rw [hread] at herrors ⊢
          exact units_readDocument_of_errors herrors
      exact ⟨review_eq_nil h hunits, reviewAt_eq_nil h hunits offset⟩

/-- The two callers and the nameless function, at the end of the first: read without errors, and with
one beside them; and a document in a language that is not known. -/
theorem entryPoints_agree_callers :
    (readingAlways ⟨callers, []⟩).UnitsAgree [] none documentLabel ∧
    (∀ stop, (readingAlways ⟨callers, []⟩).reviewRange [] none 3 stop documentLabel =
      ((readingAlways ⟨callers, []⟩).reviewAt [] none 3, [])) ∧
    (readingAlways ⟨callers, []⟩).reviewAt [] none 3 ≠ [] ∧
    (readingAlways ⟨callers, []⟩).reviewAt [] none 3 <:+:
      (readingAlways ⟨callers, []⟩).review [] none ∧
    (readingAlways ⟨callers, unread.errors⟩).UnitsAgree [] none documentLabel ∧
    (∀ stop, ((readingAlways ⟨callers, unread.errors⟩).reviewRange [] none 3 stop documentLabel).2 =
      unread.errors) ∧
    exactReviewer.UnitsAgree ['x'] none ['y'] ∧
    exactReviewer.review ['x'] none = [] ∧
    (exactReviewer.reviewFile ['x'] none ['y']).2 = [⟨['y'], unknownLanguage none⟩] := by
  have hcallers : (readingAlways ⟨callers, []⟩).UnitsAgree [] none documentLabel := rfl
  have hfaulty : (readingAlways ⟨callers, unread.errors⟩).UnitsAgree [] none documentLabel := rfl
  have hunknown : exactReviewer.UnitsAgree ['x'] none ['y'] := unitsAgree_of_read_eq rfl _ _ _
  obtain ⟨-, hrange, hblock⟩ := (entryPoints_agree hcallers 3).1 rfl
  obtain ⟨-, herrors, -⟩ := (entryPoints_agree hfaulty 3).2 (List.cons_ne_nil _ _)
  obtain ⟨hfile, -, -, -, hempty⟩ := (entryPoints_agree hunknown 0).2 (List.cons_ne_nil _ _)
  exact ⟨hcallers, hrange, by decide +kernel, hblock, hfaulty, herrors, hunknown,
    (hempty (.inr rfl)).1, hfile⟩

/-- With units beside the errors, a review that passes no errors on has findings. -/
theorem review_beside_errors :
    (readingAlways ⟨callers, unread.errors⟩).UnitsAgree [] none documentLabel ∧
    ((readingAlways ⟨callers, unread.errors⟩).read [] none documentLabel).errors ≠ [] ∧
    (readingAlways ⟨callers, unread.errors⟩).review [] none ≠ [] ∧
    (readingAlways ⟨callers, unread.errors⟩).reviewAt [] none 3 ≠ [] :=
  ⟨rfl, List.cons_ne_nil _ _, by decide +kernel, by decide +kernel⟩

end CodeHealth.Reviewer
