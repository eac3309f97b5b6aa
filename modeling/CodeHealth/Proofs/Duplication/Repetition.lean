import CodeHealth.Duplication
import CodeHealth.Proofs.Distinct
import CodeHealth.Proofs.Text.Basic
import Mathlib.Algebra.Order.Ring.Rat
import Mathlib.Data.Nat.Cast.Order.Ring
import Mathlib.Logic.Relation

/-!
# Repetition and layout

Repetition is judged by two numbers: how many significant lines a text has, and how many different
ones.  Neither depends on the order of the lines, on blank lines or on the white space around lines.
In exact arithmetic a higher ratio finds more texts repetitive: the ratio zero none, and the ratio
one those in which some line comes back.
-/

namespace CodeHealth

open scoped List

/-! ## Layout -/

namespace Text

variable {s t : Text}

def AllBlank (t : Text) : Prop :=
  ∀ c ∈ t, isBlank c = true

instance (t : Text) : Decidable t.AllBlank :=
  List.decidableBAll (fun c ↦ isBlank c = true) t

/-- One change of the layout of a text. -/
inductive LayoutEdit : Text → Text → Prop
  /-- The lines change places. -/
  | reorder {s t : Text} (h : s.lines ~ t.lines) : LayoutEdit s t
  /-- A blank line comes in. -/
  | blankLine (above below : List Text) (line : Text) {s t : Text} (hline : line.AllBlank)
      (hs : s.lines = above ++ below) (ht : t.lines = above ++ line :: below) : LayoutEdit s t
  /-- White space comes in before a line and behind it. -/
  | around (above below : List Text) (left line right : Text) {s t : Text}
      (hleft : left.AllBlank) (hright : right.AllBlank) (hs : s.lines = above ++ line :: below)
      (ht : t.lines = above ++ (left ++ line ++ right) :: below) : LayoutEdit s t

/-- The texts differ by changes of the layout only, made or undone in any order. -/
def SameButLayout : Text → Text → Prop :=
  Relation.EqvGen LayoutEdit

theorem LayoutEdit.significantLines_perm (h : LayoutEdit s t) :
    s.significantLines ~ t.significantLines := by
  cases h with
  | reorder h => exact (h.map trim).filter _
  | blankLine above below line hline hs ht =>
    have htrim : line.trim = [] := trim_eq_nil_iff.mpr hline
    refine .of_eq ?_
    simp [significantLines, hs, ht, htrim]
  | around above below left line right hleft hright hs ht =>
    refine .of_eq ?_
    simp only [significantLines, hs, ht, List.map_append, List.map_cons,
      trim_append_append hleft hright]

theorem SameButLayout.significantLines_perm (h : SameButLayout s t) :
    s.significantLines ~ t.significantLines := by
  induction h with
  | rel _ _ hedit => exact hedit.significantLines_perm
  | refl _ => exact .rfl
  | symm _ _ _ ih => exact ih.symm
  | trans _ _ _ _ _ ih ih' => exact ih.trans ih'

/-- Two lines of the text, neither of them blank, are the same once they are trimmed. -/
def RepeatsLine (t : Text) : Prop :=
  ∃ l m, [l, m] <+ t.lines ∧ ¬ l.AllBlank ∧ ¬ m.AllBlank ∧ l.trim = m.trim

theorem nodup_significantLines_iff : t.significantLines.Nodup ↔
    ∀ l m, [l, m] <+ t.lines → ¬ l.AllBlank → ¬ m.AllBlank → l.trim ≠ m.trim := by
  have hkept (line : Text) : (!line.trim.isEmpty) = true ↔ ¬ line.AllBlank := by
    rw [Bool.not_eq_true', List.isEmpty_eq_false_iff, ne_eq, trim_eq_nil_iff, AllBlank]
  rw [significantLines, List.Nodup, List.pairwise_filter, List.pairwise_map,
    List.pairwise_iff_forall_sublist]
  simp only [hkept]

theorem not_nodup_significantLines_iff : ¬ t.significantLines.Nodup ↔ t.RepeatsLine := by
  rw [nodup_significantLines_iff]
  push Not
  rfl

end Text

/-! ## Repetition -/

theorem isRepetitive_eq_of_perm {α : Type} [Scalar α] (ratio : α) {s t : Text}
    (h : s.significantLines ~ t.significantLines) : isRepetitive ratio s = isRepetitive ratio t := by
  rw [isRepetitive, isRepetitive, h.length_eq, (eraseDups_perm h).length_eq]

section Exact

variable {ratio ratio' : Rat} {t : Text}

theorem isRepetitive_iff : isRepetitive ratio t = true ↔
    (t.significantLines.eraseDups.length : Rat) < t.significantLines.length * ratio :=
  decide_eq_true_iff

theorem isRepetitive_of_le (hratio : ratio' ≤ ratio) (h : isRepetitive ratio' t = true) :
    isRepetitive ratio t = true := by
  have hlines : (0 : Rat) ≤ t.significantLines.length := Nat.cast_nonneg _
  rw [isRepetitive_iff] at h ⊢
  exact h.trans_le (mul_le_mul_of_nonneg_left hratio hlines)

theorem isRepetitive_zero (t : Text) : isRepetitive (0 : Rat) t = false := by
  have hdistinct : (0 : Rat) ≤ t.significantLines.eraseDups.length := Nat.cast_nonneg _
  rw [← Bool.not_eq_true, isRepetitive_iff, mul_zero]
  exact hdistinct.not_gt

theorem isRepetitive_one_iff : isRepetitive (1 : Rat) t = true ↔ t.RepeatsLine := by
  rw [isRepetitive_iff, mul_one, Nat.cast_lt, length_eraseDups_lt_iff,
    Text.not_nodup_significantLines_iff]

end Exact

/-- Texts that differ by their layout only are repetitive alike, at every ratio and in any
arithmetic.  In exact arithmetic, a repetitive text stays so at a higher ratio, no text is
repetitive at the ratio zero, and at the ratio one those are that have a line twice. -/
theorem isRepetitive_ignores_layout :
    (∀ (α : Type) [Scalar α] (ratio : α) (s t : Text), Text.SameButLayout s t →
      isRepetitive ratio s = isRepetitive ratio t) ∧
    ∀ t : Text,
      (∀ ratio ratio' : Rat, ratio ≤ ratio' →
        isRepetitive ratio t = true → isRepetitive ratio' t = true) ∧
      isRepetitive (0 : Rat) t = false ∧
      (isRepetitive (1 : Rat) t = true ↔ t.RepeatsLine) := by
  refine ⟨fun α _ ratio s t h ↦ isRepetitive_eq_of_perm ratio h.significantLines_perm, fun t ↦ ?_⟩
  exact ⟨fun ratio ratio' hle ↦ isRepetitive_of_le hle, isRepetitive_zero t, isRepetitive_one_iff⟩

/-- Three lines, the first and the last of them the same. -/
def repeatingText : Text := "a\nb\na".toList

/-- The same lines, moved, indented and with a blank line between them. -/
def spacedText : Text := "  a\n \t\na\n\tb ".toList

theorem sameButLayout_spacedText : Text.SameButLayout repeatingText spacedText := by
  have hreorder : Text.LayoutEdit repeatingText "a\na\nb".toList := .reorder (by decide)
  have hblank : Text.LayoutEdit "a\na\nb".toList "a\n \t\na\nb".toList :=
    .blankLine [['a']] [['a'], ['b']] [' ', '\t'] (by decide) (by decide) (by decide)
  have hfirst : Text.LayoutEdit "a\n \t\na\nb".toList "  a\n \t\na\nb".toList :=
    .around [] [[' ', '\t'], ['a'], ['b']] [' ', ' '] ['a'] [] (by decide) (by decide) (by decide)
      (by decide)
  have hlast : Text.LayoutEdit "  a\n \t\na\nb".toList spacedText :=
    .around [[' ', ' ', 'a'], [' ', '\t'], ['a']] [] ['\t'] ['b'] [' '] (by decide) (by decide)
      (by decide) (by decide)
  exact .trans _ _ _ (.trans _ _ _ (.rel _ _ hreorder) (.rel _ _ hblank))
    (.trans _ _ _ (.rel _ _ hfirst) (.rel _ _ hlast))

theorem isRepetitive_ignores_layout_spacedText :
    Text.SameButLayout repeatingText spacedText ∧
    (∀ ratio : Float, isRepetitive ratio repeatingText = isRepetitive ratio spacedText) ∧
    spacedText.RepeatsLine ∧ isRepetitive (1 : Rat) spacedText = true ∧
    isRepetitive (2 : Rat) spacedText = true := by
  obtain ⟨hlayout, hexact⟩ := isRepetitive_ignores_layout
  obtain ⟨hmono, -, hone⟩ := hexact spacedText
  have hrepeats : spacedText.RepeatsLine :=
    ⟨[' ', ' ', 'a'], ['a'], by decide, by decide, by decide, by decide⟩
  exact ⟨sameButLayout_spacedText, fun ratio ↦ hlayout Float ratio _ _ sameButLayout_spacedText,
    hrepeats, hone.mpr hrepeats, hmono 1 2 one_le_two (hone.mpr hrepeats)⟩

end CodeHealth
