import CodeHealth.Proofs.Duplication
import CodeHealth.Proofs.EditDistance.Edits
import Mathlib.Algebra.Field.Rat
import Mathlib.Algebra.Order.Field.Basic
import Mathlib.Algebra.Order.Ring.Rat
import Mathlib.Data.Nat.Cast.Order.Ring

/-!
# Similarity in exact arithmetic

Texts within the cap are as similar as their normal forms agree: what is lacking to one is the
least number of edits between them per character of the longer one.  So similarity is a number
between zero and one, it is one for texts of the same normal form only, and texts of different
lengths cannot be more similar than their lengths allow.
-/

namespace CodeHealth

open EditDistance (Edits)

variable {cap : Int} {s t : Text}

/-! ## Its values -/

theorem similarity_eq_zero (h : ¬ WithinCap cap s t) : similarity cap s t = (0 : Rat) :=
  (similarity_of_not_withinCap h).trans Nat.cast_zero

theorem similarity_eq_one (h : WithinCap cap s t) (hnil : normalForm s = [] ∧ normalForm t = []) :
    similarity cap s t = (1 : Rat) := by
  rw [similarity_of_withinCap h, if_pos hnil]
  exact Nat.cast_one

theorem similarity_eq_one_sub (h : WithinCap cap s t)
    (hne : ¬ (normalForm s = [] ∧ normalForm t = [])) :
    similarity cap s t = 1 - (editDistance (normalForm s) (normalForm t) : Rat) /
      (max (normalForm s).length (normalForm t).length : Nat) := by
  rw [similarity_of_withinCap h, if_neg hne]
  show ((1 : Nat) : Rat) - _ = _
  rw [Nat.cast_one]
  rfl

theorem withinCap_of_nil (hcap : 0 ≤ cap) (hnil : normalForm s = [] ∧ normalForm t = []) :
    WithinCap cap s t := by
  rw [WithinCap, hnil.1, hnil.2]
  exact ⟨hcap, hcap⟩

/-- Similarity is what the least number of edits leaves of one; texts without a character are the
same, and texts beyond the cap have nothing in common. -/
theorem similarity_eq_least_edits (hcap : 0 ≤ cap) (s t : Text) :
    ((normalForm s).length ≤ cap → (normalForm t).length ≤ cap →
      ¬ (normalForm s = [] ∧ normalForm t = []) →
      ∃ d, IsLeast {n | Edits n (normalForm s) (normalForm t)} d ∧
        similarity cap s t =
          1 - (d : Rat) / (max (normalForm s).length (normalForm t).length : Nat)) ∧
    (normalForm s = [] ∧ normalForm t = [] → similarity cap s t = (1 : Rat)) ∧
    (cap < (normalForm s).length ∨ cap < (normalForm t).length →
      similarity cap s t = (0 : Rat)) := by
  refine ⟨fun hs ht hne ↦ ?_, fun hnil ↦ ?_, fun hlong ↦ ?_⟩
  · exact ⟨_, isLeast_editDistance _ _, similarity_eq_one_sub ⟨hs, ht⟩ hne⟩
  · exact similarity_eq_one (withinCap_of_nil hcap hnil) hnil
  · apply similarity_eq_zero
    rw [WithinCap, not_and_or, Int.not_le, Int.not_le]
    exact hlong

/-- A call, whose normal form has six characters. -/
def shortCall : Text := "f(a)".toList

/-- A call with another argument, whose normal form has nine characters. -/
def longCall : Text := "g(b, 1)".toList

/-- A third of the longer normal form has to be inserted; with one character less in the cap, the
calls have nothing in common. -/
theorem similarity_eq_least_edits_calls :
    (normalForm shortCall).length ≤ (9 : Int) ∧ (normalForm longCall).length ≤ (9 : Int) ∧
    ¬ (normalForm shortCall = [] ∧ normalForm longCall = []) ∧
    (8 : Int) < (normalForm longCall).length ∧
    (∃ d, IsLeast {n | Edits n (normalForm shortCall) (normalForm longCall)} d ∧ d = 3 ∧
      similarity 9 shortCall longCall = 1 - (d : Rat) / (9 : Nat)) ∧
    similarity 8 shortCall longCall = (0 : Rat) := by
  have hshort : (normalForm shortCall).length ≤ (9 : Int) := by decide +kernel
  have hlong : (normalForm longCall).length ≤ (9 : Int) := by decide +kernel
  have hne : ¬ (normalForm shortCall = [] ∧ normalForm longCall = []) := by decide +kernel
  have hover : (8 : Int) < (normalForm longCall).length := by decide +kernel
  have hnine : (0 : Int) ≤ 9 := by decide
  have height : (0 : Int) ≤ 8 := by decide
  refine ⟨hshort, hlong, hne, hover, ?_, ?_⟩
  · obtain ⟨d, hd, heq⟩ :=
      (similarity_eq_least_edits hnine shortCall longCall).1 hshort hlong hne
    refine ⟨d, hd, ?_, heq⟩
    exact hd.unique (isLeast_editDistance _ _)
  · exact (similarity_eq_least_edits height shortCall longCall).2.2 (.inr hover)

/-! ## Its bounds -/

theorem max_length_pos (hne : ¬ (s = [] ∧ t = [])) : 0 < max s.length t.length := by
  rw [← List.length_eq_zero_iff, ← List.length_eq_zero_iff] at hne
  omega

theorem similarity_nonneg (cap : Int) (s t : Text) : 0 ≤ (similarity cap s t : Rat) := by
  by_cases h : WithinCap cap s t
  · by_cases hnil : normalForm s = [] ∧ normalForm t = []
    · rw [similarity_eq_one h hnil]
      exact zero_le_one
    · rw [similarity_eq_one_sub h hnil, sub_nonneg]
      apply div_le_one_of_le₀
      · exact Nat.cast_le.mpr (editDistance_le_max _ _)
      · exact Nat.cast_nonneg _
  · exact (similarity_eq_zero h).ge

theorem similarity_le_one (cap : Int) (s t : Text) : (similarity cap s t : Rat) ≤ 1 := by
  by_cases h : WithinCap cap s t
  · by_cases hnil : normalForm s = [] ∧ normalForm t = []
    · exact (similarity_eq_one h hnil).le
    · rw [similarity_eq_one_sub h hnil, sub_le_self_iff]
      exact div_nonneg (Nat.cast_nonneg _) (Nat.cast_nonneg _)
  · rw [similarity_eq_zero h]
    exact zero_le_one

/-- Only texts of the same normal form are fully similar. -/
theorem similarity_eq_one_iff : similarity cap s t = (1 : Rat) ↔
    WithinCap cap s t ∧ normalForm s = normalForm t := by
  by_cases h : WithinCap cap s t
  · rw [and_iff_right h]
    by_cases hnil : normalForm s = [] ∧ normalForm t = []
    · exact iff_of_true (similarity_eq_one h hnil) (hnil.1.trans hnil.2.symm)
    · have hpos := max_length_pos hnil
      rw [similarity_eq_one_sub h hnil, sub_eq_self, div_eq_zero_iff, Nat.cast_eq_zero,
        Nat.cast_eq_zero, or_iff_left hpos.ne', editDistance_eq_zero_iff]
  · rw [similarity_eq_zero h]
    exact iff_of_false zero_ne_one fun hsame ↦ h hsame.1

/-- What one normal form is longer by cannot be similar to anything in the other. -/
theorem similarity_le_length_ratio (h : WithinCap cap s t)
    (hne : ¬ (normalForm s = [] ∧ normalForm t = [])) :
    (similarity cap s t : Rat) ≤ (min (normalForm s).length (normalForm t).length : Nat) /
      (max (normalForm s).length (normalForm t).length : Nat) := by
  have hpos : (0 : Rat) < (max (normalForm s).length (normalForm t).length : Nat) :=
    Nat.cast_pos.mpr (max_length_pos hne)
  rw [similarity_eq_one_sub h hne, sub_le_iff_le_add, ← add_div, one_le_div hpos, ← Nat.cast_add,
    Nat.cast_le]
  exact max_le_min_add_editDistance _ _

/-- Similarity is symmetric and lies between zero and one; it is one exactly for texts within the
cap that have the same normal form, and at most the share that the shorter normal form has of the
longer one. -/
theorem similarity_laws (cap : Int) (s t : Text) :
    similarity cap s t = (similarity cap t s : Rat) ∧
    (0 ≤ (similarity cap s t : Rat) ∧ (similarity cap s t : Rat) ≤ 1) ∧
    (similarity cap s t = (1 : Rat) ↔ (normalForm s).length ≤ cap ∧ (normalForm t).length ≤ cap ∧
      normalForm s = normalForm t) ∧
    ((normalForm s).length ≤ cap → (normalForm t).length ≤ cap →
      ¬ (normalForm s = [] ∧ normalForm t = []) →
      (similarity cap s t : Rat) ≤ (min (normalForm s).length (normalForm t).length : Nat) /
        (max (normalForm s).length (normalForm t).length : Nat)) := by
  refine ⟨similarity_comm cap s t, ⟨similarity_nonneg cap s t, similarity_le_one cap s t⟩, ?_, ?_⟩
  · rw [similarity_eq_one_iff, WithinCap, and_assoc]
  · intro hs ht hne
    exact similarity_le_length_ratio ⟨hs, ht⟩ hne

/-- The two calls are as similar as their lengths allow. -/
theorem similarity_laws_calls :
    (normalForm shortCall).length ≤ (9 : Int) ∧ (normalForm longCall).length ≤ (9 : Int) ∧
    ¬ (normalForm shortCall = [] ∧ normalForm longCall = []) ∧
    (similarity 9 shortCall longCall : Rat) ≤ (6 : Nat) / (9 : Nat) ∧
    similarity 9 shortCall longCall ≠ (1 : Rat) := by
  have hshort : (normalForm shortCall).length ≤ (9 : Int) := by decide +kernel
  have hlong : (normalForm longCall).length ≤ (9 : Int) := by decide +kernel
  have hne : ¬ (normalForm shortCall = [] ∧ normalForm longCall = []) := by decide +kernel
  obtain ⟨-, -, hone, hratio⟩ := similarity_laws 9 shortCall longCall
  refine ⟨hshort, hlong, hne, hratio hshort hlong hne, fun heq ↦ ?_⟩
  exact absurd (hone.mp heq).2.2 (by decide +kernel)

end CodeHealth
