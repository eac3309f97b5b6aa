import CodeHealth.Proofs.NormalForm
import Mathlib.Data.List.Chain

/-!
# Canonical texts

In a canonical text white space is single spaces between other characters, and each word is the
placeholder of identifiers or begins with a digit.  Normal forms are canonical, and a canonical text
is its own normal form; so the canonical texts are exactly the normal forms, and taking the normal
form twice changes nothing.
-/

namespace CodeHealth.NormalForm

/-- A longest run of the characters that satisfy `p`, between `s` and `rest`. -/
structure IsMaximalRun (p : Char → Bool) (s w rest : Text) : Prop extends IsRun p w rest where
  begins : ∀ c ∈ s.getLast?, p c = false

/-- White space is single spaces, and words are written as in normal forms. -/
structure IsTidy (t : Text) : Prop where
  spaces : ∀ c ∈ t, Text.isBlank c = true → c = ' '
  apart : t.IsChain fun a b ↦ Text.isBlank a = true → Text.isBlank b = false
  words : ∀ s w rest, t = s ++ w ++ rest → IsMaximalRun Text.isWordChar s w rest →
    w = ['i', 'd'] ∨ ∀ c ∈ w.head?, c.isDigit = true

/-- A tidy text with no white space at its ends. -/
structure IsCanonical (t : Text) : Prop extends IsTidy t where
  starts : ∀ c ∈ t.head?, Text.isBlank c = false
  stops : ∀ c ∈ t.getLast?, Text.isBlank c = false

theorem IsRun.takeWhile_eq {p : Char → Bool} {w rest : Text} (h : IsRun p w rest) :
    (w ++ rest).takeWhile p = w := by
  rw [List.takeWhile_append_of_pos h.forall_mem]
  cases rest with
  | nil => simp
  | cons c rest => simp [h.ends c rfl]

theorem IsMaximalRun.of_append {p : Char → Bool} {a s w rest : Text}
    (h : IsMaximalRun p (a ++ s) w rest) : IsMaximalRun p s w rest where
  toIsRun := h.toIsRun
  begins c hc := h.begins c (List.mem_getLast?_append_of_mem_getLast? hc)

/-! ## Normal forms are canonical -/

theorem isTidy_nil : IsTidy [] where
  spaces := by simp
  apart := .nil
  words s w rest heq hrun := by
    have hnil : w = [] := by simp_all
    exact absurd hnil hrun.ne_nil

namespace IsTidy

variable {t : Text}

theorem cons (h : IsTidy t) {c : Char} (hword : Text.isWordChar c = false)
    (hblank : Text.isBlank c = true → c = ' ' ∧ ∀ d ∈ t.head?, Text.isBlank d = false) :
    IsTidy (c :: t) where
  spaces d hd hdblank := by
    rcases List.mem_cons.mp hd with rfl | hd
    · exact (hblank hdblank).1
    · exact h.spaces d hd hdblank
  apart := List.isChain_cons.mpr ⟨fun d hd hc ↦ (hblank hc).2 d hd, h.apart⟩
  words s w rest heq hmax := by
    cases s with
    | nil =>
      obtain ⟨d, w, rfl, hd⟩ := hmax.exists_eq_cons
      obtain ⟨rfl, -⟩ := List.cons.inj heq
      exact absurd hd (ne_true_of_eq_false hword)
    | cons d s =>
      obtain ⟨rfl, ht⟩ := List.cons.inj heq
      exact h.words s w rest ht (IsMaximalRun.of_append (a := [c]) hmax)

theorem word_append (h : IsTidy t) {w : Text} (hrun : IsRun Text.isWordChar w t)
    (hw : w = ['i', 'd'] ∨ ∀ c ∈ w.head?, c.isDigit = true) : IsTidy (w ++ t) where
  spaces c hc hblank := by
    rcases List.mem_append.mp hc with hc | hc
    · exact absurd hblank (ne_true_of_eq_false (hrun.isBlank_eq_false hc))
    · exact h.spaces c hc hblank
  apart := by
    refine List.isChain_append.mpr ⟨?_, h.apart, ?_⟩
    · apply List.Pairwise.isChain
      exact List.pairwise_of_forall_mem_list fun a _ b hb _ ↦ hrun.isBlank_eq_false hb
    · intro c hc d _ hblank
      have hnot := hrun.isBlank_eq_false (List.mem_of_mem_getLast? hc)
      exact absurd hblank (ne_true_of_eq_false hnot)
  words s v rest heq hmax := by
    rw [List.append_assoc, List.append_eq_append_iff] at heq
    rcases heq with ⟨a, rfl, ht⟩ | ⟨b, rfl, hb⟩
    · -- The run lies behind `w`.
      exact h.words a v rest (by rw [ht, List.append_assoc]) hmax.of_append
    · -- The run begins in `w`, so it begins with it, and ends with it.
      by_cases hs : s = []
      · subst hs
        have hv := hmax.takeWhile_eq
        rw [hb, ← List.nil_append b, hrun.takeWhile_eq] at hv
        rwa [← hv]
      · obtain ⟨init, c, rfl⟩ := (List.eq_nil_or_concat' s).resolve_left hs
        have hc : Text.isWordChar c = true := hrun.forall_mem c (by simp)
        exact absurd hc (ne_true_of_eq_false (hmax.begins c (by simp)))

/-- What is left of a tidy text when a part is cut off that does not end within a word. -/
theorem of_append {w : Text} (h : IsTidy (w ++ t))
    (hcut : ∀ c ∈ w.getLast?, ∀ d ∈ t.head?, Text.isWordChar c = true → Text.isWordChar d = false) :
    IsTidy t where
  spaces c hc := h.spaces c (List.mem_append_right w hc)
  apart := h.apart.right_of_append
  words s v rest heq hmax := by
    refine h.words (w ++ s) v rest (by rw [heq, List.append_assoc, List.append_assoc,
      List.append_assoc]) ⟨hmax.toIsRun, fun c hc ↦ ?_⟩
    rcases Text.mem_getLast?_append_iff.mp hc with hs | ⟨rfl, hw⟩
    · exact hmax.begins c hs
    · obtain ⟨d, v, rfl, hd⟩ := hmax.exists_eq_cons
      by_contra hword
      rw [Bool.not_eq_false] at hword
      exact absurd hd (ne_true_of_eq_false (hcut c hw d (by simp [heq]) hword))

end IsTidy

/-- What tokens are written as is tidy. -/
theorem Splits.isTidy_write {t : Text} {ts : List Token} (h : Splits t ts) :
    IsTidy (NormalForm.write ts) := by
  induction h with
  | nil => exact isTidy_nil
  | identifier hrun hstart hrest ih =>
    refine ih.word_append (w := ['i', 'd']) ⟨List.cons_ne_nil _ _, List.all_eq_true.mp rfl, ?_⟩
      (.inl rfl)
    exact hrest.head?_write (k := .word) hrun.ends
  | number hrun hstart hrest ih =>
    refine ih.word_append ⟨hrun.ne_nil, hrun.forall_mem, ?_⟩ (.inr hstart)
    exact hrest.head?_write (k := .word) hrun.ends
  | blank hrun hrest ih =>
    refine ih.cons (c := ' ') (by decide) fun _ ↦ ⟨rfl, ?_⟩
    exact hrest.head?_write (k := .blank) hrun.ends
  | @symbol c rest ts hword hblank hrest ih =>
    refine ih.cons hword fun hc ↦ ?_
    exact absurd hc (ne_true_of_eq_false hblank)

theorem isCanonical_normalForm (t : Text) : IsCanonical (normalForm t) := by
  rw [normalForm_eq_write]
  have hsplits : Splits t.trim (tokens t.trim) := splits_iff.mpr rfl
  refine ⟨hsplits.isTidy_write, ?_, ?_⟩
  · exact hsplits.head?_write (k := .blank) fun c hc ↦ Text.isBlank_eq_false_of_mem_head?_trim hc
  · exact hsplits.getLast?_write fun c hc ↦ Text.isBlank_eq_false_of_mem_getLast?_trim hc

/-! ## Canonical texts are normal forms -/

/-- In a tidy text, a run of white space is a single space. -/
theorem IsTidy.eq_space {w rest : Text} (h : IsTidy (w ++ rest))
    (hrun : IsRun Text.isBlank w rest) : w = [' '] := by
  obtain ⟨c, w, rfl, hc⟩ := hrun.exists_eq_cons
  obtain rfl := h.spaces c (by simp) hc
  cases w with
  | nil => rfl
  | cons d w =>
    have hd : Text.isBlank d = true := hrun.forall_mem d (by simp)
    exact absurd hd (ne_true_of_eq_false ((List.isChain_cons_cons.mp h.apart).1 hc))

/-- A tidy text is what its tokens are written as. -/
theorem Splits.write_eq {t : Text} {ts : List Token} (h : Splits t ts) (ht : IsTidy t) :
    NormalForm.write ts = t := by
  induction h with
  | nil => rfl
  | @identifier w rest ts hrun hstart hrest ih =>
    have hw : w = ['i', 'd'] := by
      rcases ht.words [] w rest rfl ⟨hrun, by simp⟩ with hw | hdigit
      · exact hw
      · obtain ⟨c, w, rfl, -⟩ := hrun.exists_eq_cons
        have hnot := Text.isWordStart_eq_false_of_isDigit (hdigit c rfl)
        exact absurd (hstart c rfl) (ne_true_of_eq_false hnot)
    have hrest := ih (ht.of_append fun c _ d hd _ ↦ hrun.ends d hd)
    show ['i', 'd'] ++ NormalForm.write ts = w ++ rest
    rw [hrest, hw]
  | @number w rest ts hrun hstart hrest ih =>
    show w ++ NormalForm.write ts = w ++ rest
    rw [ih (ht.of_append fun c _ d hd _ ↦ hrun.ends d hd)]
  | @blank w rest ts hrun hrest ih =>
    have hrest := ih (ht.of_append fun c hc d _ hword ↦ ?_)
    · show [' '] ++ NormalForm.write ts = w ++ rest
      rw [hrest, ht.eq_space hrun]
    · have hblank := hrun.forall_mem c (List.mem_of_mem_getLast? hc)
      exact absurd hword (ne_true_of_eq_false (Text.isWordChar_eq_false_of_isBlank hblank))
  | @symbol c rest ts hword hblank hrest ih =>
    have hrest := ih (ht.of_append (w := [c]) fun d hd e _ hd' ↦ ?_)
    · show [c] ++ NormalForm.write ts = c :: rest
      rw [hrest]
      rfl
    · obtain rfl := Option.some.inj hd
      exact absurd hd' (ne_true_of_eq_false hword)

theorem IsCanonical.normalForm_eq {t : Text} (h : IsCanonical t) : normalForm t = t := by
  rw [normalForm_eq_write, Text.trim_eq_self h.starts h.stops]
  exact Splits.write_eq (splits_iff.mpr rfl) h.toIsTidy

/-- The canonical texts are the normal forms, and each is its own normal form. -/
theorem normalForm_canonical (t : Text) :
    IsCanonical (normalForm t) ∧ (IsCanonical t ↔ normalForm t = t) ∧
      normalForm (normalForm t) = normalForm t := by
  refine ⟨isCanonical_normalForm t, ⟨fun h ↦ h.normalForm_eq, fun h ↦ ?_⟩,
    (isCanonical_normalForm t).normalForm_eq⟩
  rw [← h]
  exact isCanonical_normalForm t

end CodeHealth.NormalForm
