import CodeHealth.Source.Lexeme
import Mathlib.Data.List.Basic

/-!
# Lexemes are not empty

A lexeme takes at least one character of a text that has one, and so do the comments that follow a
declaration on its line.
-/

namespace CodeHealth.Source

theorem pos_of_atLeastOne {n m : Nat} (h : atLeastOne n = some m) : 0 < m := by
  rw [atLeastOne] at h
  split at h
  · cases h
  · next hn =>
    cases h
    exact Nat.pos_of_ne_zero fun h0 ↦ hn (beq_iff_eq.mpr h0)

theorem pos_of_map_succ {x : Option Nat} {m : Nat} (h : x.map (· + 1) = some m) : 0 < m := by
  obtain ⟨n, -, rfl⟩ := Option.map_eq_some_iff.mp h
  exact Nat.succ_pos n

namespace Lexeme

theorem width_nil (l : Lexeme) : l.width [] = none := by
  cases l with
  | name =>
    rw [width]
    exact ite_self none
  | keyword w =>
    simp only [width, List.take_nil]
    split
    · next h =>
      rw [← eq_of_beq h]
      rfl
    · rfl
  | operator os =>
    have hnone : operatorAt [] = [] := by decide
    simp only [width, hnone]
    exact ite_self none
  | exactly x =>
    cases x with
    | nil => rfl
    | cons c x => rfl
  | word | number | string | regex | privateName | templateText | tagName | tagString | tagText
  | interpreterLine | anyChar => rfl

theorem width_pos {l : Lexeme} {t : Text} {n : Nat} (h : l.width t = some n) : 0 < n := by
  cases l with
  | word | number | templateText | tagText | anyChar => exact pos_of_atLeastOne h
  | name =>
    simp only [width] at h
    split at h
    · cases h
    · exact pos_of_atLeastOne h
  | keyword w | operator os | exactly x | tagName =>
    simp only [width] at h
    split at h
    · exact pos_of_atLeastOne h
    · cases h
  | string =>
    simp only [width] at h
    split at h
    · exact pos_of_map_succ h
    · exact pos_of_map_succ h
    · cases h
  | regex =>
    simp only [width] at h
    split at h
    · split at h
      · cases h
      · exact pos_of_map_succ h
    · cases h
  | privateName =>
    simp only [width] at h
    split at h
    · exact pos_of_map_succ h
    · cases h
  | tagString =>
    simp only [width] at h
    split at h
    · split at h
      · split at h
        · cases h
          exact Nat.succ_pos _
        · cases h
      · cases h
    · cases h
  | interpreterLine =>
    simp only [width] at h
    split at h
    · cases h
      exact Nat.succ_pos _
    · cases h

theorem ne_nil_of_width {l : Lexeme} {t : Text} {n : Nat} (h : l.width t = some n) : t ≠ [] := by
  rintro rfl
  rw [width_nil] at h
  cases h

end Lexeme

/-! ## Comments on the line -/

/-- The scan ends behind the comment that it is in, and behind the one that it has found last. -/
theorem le_lineTailEnd {gap : Gap} {pos last m : Nat} {t : Text} (hlast : last ≤ pos)
    (h : lineTailEnd gap pos last t = some m) : last ≤ m ∧ (gap ≠ .free → pos ≤ m) := by
  fun_induction lineTailEnd gap pos last t with
  | case6 | case9 | case10 => cases h
  | case1 | case2 | case3 | case7 | case11 =>
    cases h
    simp [hlast]
  | case4 pos last rest ih | case5 pos last rest ih =>
    have := ih (by omega) h
    simp [this]
  | case8 pos last c rest _ _ _ _ ih => exact ⟨(ih (by omega) h).1, fun hfree ↦ absurd rfl hfree⟩
  | case12 pos last c rest _ _ ih =>
    have := ih (by omega) h
    omega
  | case13 pos last c rest _ _ ih =>
    obtain ⟨hfound, hpos⟩ := ih (by omega) h
    have := hpos Gap.noConfusion
    omega
  | case14 pos last rest ih =>
    have := ih (by omega) h
    omega
  | case15 pos last c rest _ ih =>
    obtain ⟨hfound, hpos⟩ := ih (by omega) h
    have := hpos Gap.noConfusion
    omega

/-- Comments on the line have at least one character behind the white space before them. -/
theorem lt_lineTailEnd {pos n : Nat} {t : Text} (h : lineTailEnd .free pos 0 t = some (n + 1)) :
    pos + (t.takeWhile isSpace).length < n + 1 ∧ (t.takeWhile isSpace).length < t.length := by
  generalize hgap : Gap.free = gap at h
  generalize hlast : 0 = last at h
  -- Only white space may be read before the first comment; where that begins, its end is behind.
  fun_induction lineTailEnd gap pos last t with
  | case4 pos last rest ih | case5 pos last rest ih =>
    have hend := (le_lineTailEnd (by omega) h).2 Gap.noConfusion
    have hslash : isSpace '/' = false := by decide
    simp only [List.takeWhile_cons, hslash, Bool.false_eq_true, if_false, List.length_nil,
      List.length_cons]
    omega
  | case8 pos last c rest _ _ _ hspace ih =>
    have := ih hgap hlast h
    rw [List.takeWhile_cons_of_pos hspace, List.length_cons, List.length_cons]
    omega
  | case1 | case7 =>
    subst hlast
    cases h
  | case6 | case9 => cases h
  | case2 | case3 | case10 | case11 | case12 | case13 | case14 | case15 => cases hgap

end CodeHealth.Source
