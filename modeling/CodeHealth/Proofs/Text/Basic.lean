import CodeHealth.Text.Basic
import Mathlib.Data.List.TakeWhile

/-! # Laws of texts -/

namespace CodeHealth.Text

theorem contains_iff {t part : Text} : t.contains part = true ↔ part <:+: t := by
  induction t with
  | nil => simp [contains]
  | cons c t ih =>
    rw [contains, Bool.or_eq_true, List.isPrefixOf_iff_prefix, ih, List.infix_cons_iff]

/-! ## Classes of characters -/

section Classes

variable {c : Char}

theorem isDigit_iff : c.isDigit = true ↔ 48 ≤ c.toNat ∧ c.toNat ≤ 57 :=
  Bool.and_eq_true_iff.trans (and_congr decide_eq_true_iff decide_eq_true_iff)

theorem isUpper_iff : c.isUpper = true ↔ 65 ≤ c.toNat ∧ c.toNat ≤ 90 :=
  decide_eq_true_iff

theorem isLower_iff : c.isLower = true ↔ 97 ≤ c.toNat ∧ c.toNat ≤ 122 :=
  Bool.and_eq_true_iff.trans (and_congr decide_eq_true_iff decide_eq_true_iff)

theorem isWordStart_iff : isWordStart c = true ↔
    (65 ≤ c.toNat ∧ c.toNat ≤ 90) ∨ (97 ≤ c.toNat ∧ c.toNat ≤ 122) ∨ c.toNat = 95 := by
  have hunderscore : c = '_' ↔ c.toNat = 95 := by
    rw [Char.ext_iff, ← UInt32.toNat_inj]
    rfl
  change ((c.isUpper || c.isLower) || c == '_') = true ↔ _
  rw [Bool.or_eq_true, Bool.or_eq_true, beq_iff_eq, isUpper_iff, isLower_iff, hunderscore, or_assoc]

theorem isWordChar_iff : isWordChar c = true ↔ isWordStart c = true ∨ c.isDigit = true := by
  simp only [isWordChar, isWordStart, Char.isAlphanum, Bool.or_eq_true, or_right_comm]

theorem isWordStart_eq_false_of_isDigit (h : c.isDigit = true) : isWordStart c = false := by
  rw [isDigit_iff] at h
  rw [← Bool.not_eq_true, isWordStart_iff]
  omega

theorem isWordChar_eq_false_of_isBlank (h : isBlank c = true) : isWordChar c = false := by
  simp only [isBlank, Bool.or_eq_true, Bool.and_eq_true, decide_eq_true_eq, beq_iff_eq] at h
  rw [← Bool.not_eq_true, isWordChar_iff, isWordStart_iff, isDigit_iff]
  omega

theorem isBlank_of_isAsciiBlank (h : isAsciiBlank c = true) : isBlank c = true := by
  simp only [isAsciiBlank, Bool.or_eq_true, Bool.and_eq_true, decide_eq_true_eq, beq_iff_eq] at h
  simp only [isBlank, Bool.or_eq_true, Bool.and_eq_true, decide_eq_true_eq, beq_iff_eq]
  omega

theorem isBlank_eq_false_of_isWordChar (h : isWordChar c = true) : isBlank c = false := by
  cases hblank : isBlank c with
  | false => rfl
  | true => exact absurd h (ne_true_of_eq_false (isWordChar_eq_false_of_isBlank hblank))

end Classes

/-! ## Cutting -/

variable {sep : Char} {t : Text}

theorem cutAt_eq_splitOn (sep : Char) (t : Text) : t.cutAt sep = t.splitOn sep := by
  induction t with
  | nil => rfl
  | cons c t ih =>
    rw [cutAt, List.splitOn, List.splitOnP_cons_eq_if_modifyHead, ih, List.splitOn]
    simp only [beq_iff_eq]
    split
    · rfl
    · cases hparts : t.splitOnP (· == sep) with
      | nil => exact absurd hparts (List.splitOnP_ne_nil _ _)
      | cons part more => rfl

theorem cutAt_ne_nil (sep : Char) (t : Text) : t.cutAt sep ≠ [] := by
  rw [cutAt_eq_splitOn]
  exact List.splitOnP_ne_nil _ _

theorem cutAt_append_cons (sep : Char) (s t : Text) :
    (s ++ sep :: t).cutAt sep = s.cutAt sep ++ t.cutAt sep := by
  simp only [cutAt_eq_splitOn, List.splitOn]
  exact List.splitOnP_append_cons s t (beq_self_eq_true sep)

theorem cutAt_of_notMem (h : sep ∉ t) : t.cutAt sep = [t] := by
  rw [cutAt_eq_splitOn, List.splitOn]
  refine List.splitOnP_eq_singleton fun c hc ↦ ?_
  exact beq_false_of_ne (ne_of_mem_of_not_mem hc h)

theorem cutAt_eq_singleton_nil_iff : t.cutAt sep = [[]] ↔ t = [] := by
  constructor
  · intro h
    calc t
      _ = [sep].intercalate (t.splitOn sep) := (List.intercalate_splitOn sep).symm
      _ = [sep].intercalate [[]] := by rw [← cutAt_eq_splitOn, h]
      _ = [] := rfl
  · rintro rfl
    rfl

/-! ## Trimming -/

theorem eq_false_of_mem_head?_dropWhile {p : Char → Bool} {t : Text} {c : Char}
    (h : c ∈ (t.dropWhile p).head?) : p c = false := by
  have hnot := List.head?_dropWhile_not p t
  rw [Option.mem_def.mp h] at hnot
  simpa using hnot

/-- What stands before a character that is not white space stays. -/
theorem trimRight_append_cons (s : Text) {c : Char} (hc : isBlank c = false) (t : Text) :
    (s ++ c :: t).trimRight = s ++ c :: t.trimRight := by
  have hrev : (s ++ c :: t).reverse = t.reverse ++ c :: s.reverse := by simp
  rw [trimRight, hrev, List.dropWhile_append]
  split
  · next h => simp [trimRight, List.isEmpty_iff.mp h, hc]
  · simp [trimRight]

theorem trimRight_append_of_isBlank {s right : Text} (hright : ∀ c ∈ right, isBlank c = true) :
    (s ++ right).trimRight = s.trimRight := by
  rw [trimRight, List.reverse_append, List.dropWhile_append_of_pos, trimRight]
  exact fun c hc ↦ hright c (List.mem_reverse.mp hc)

theorem trimRight_prefix (t : Text) : t.trimRight <+: t := by
  rw [trimRight, ← List.reverse_suffix, List.reverse_reverse]
  exact List.dropWhile_suffix _

theorem exists_eq_trimLeft (t : Text) :
    ∃ left, t = left ++ t.trimLeft ∧ ∀ c ∈ left, isBlank c = true :=
  ⟨t.takeWhile isBlank, List.takeWhile_append_dropWhile.symm, fun _ ↦ List.mem_takeWhile_imp⟩

theorem exists_eq_trimRight (t : Text) :
    ∃ right, t = t.trimRight ++ right ∧ ∀ c ∈ right, isBlank c = true := by
  obtain ⟨left, hleft, hblank⟩ := exists_eq_trimLeft t.reverse
  refine ⟨left.reverse, ?_, fun c hc ↦ hblank c (List.mem_reverse.mp hc)⟩
  calc t
    _ = t.reverse.reverse := (List.reverse_reverse t).symm
    _ = (left ++ trimLeft t.reverse).reverse := by rw [← hleft]
    _ = t.trimRight ++ left.reverse := List.reverse_append

theorem isBlank_eq_false_of_mem_head?_trim {c : Char} (h : c ∈ t.trim.head?) :
    isBlank c = false := by
  obtain ⟨more, hmore⟩ := trimRight_prefix t.trimLeft
  have hhead : t.trimLeft.head? = some c := by
    rw [← hmore, List.head?_append, ← trim, Option.mem_def.mp h, Option.some_or]
  exact eq_false_of_mem_head?_dropWhile hhead

theorem isBlank_eq_false_of_mem_getLast?_trim {c : Char} (h : c ∈ t.trim.getLast?) :
    isBlank c = false := by
  rw [trim, trimRight, List.getLast?_reverse] at h
  exact eq_false_of_mem_head?_dropWhile h

/-- A text with no white space at its ends stays as it is. -/
theorem trim_eq_self (hstart : ∀ c ∈ t.head?, isBlank c = false)
    (hstop : ∀ c ∈ t.getLast?, isBlank c = false) : t.trim = t := by
  have hkeep {s : Text} (h : ∀ c ∈ s.head?, isBlank c = false) : s.dropWhile isBlank = s := by
    cases s with
    | nil => rfl
    | cons c s => exact List.dropWhile_cons_of_neg (ne_true_of_eq_false (h c rfl))
  rw [trim, trimLeft, hkeep hstart, trimRight, hkeep (List.head?_reverse ▸ hstop),
    List.reverse_reverse]

theorem trim_eq_nil_iff : t.trim = [] ↔ ∀ c ∈ t, isBlank c = true := by
  have hright (s : Text) : s.trimRight = [] ↔ ∀ c ∈ s, isBlank c = true := by
    rw [trimRight, List.reverse_eq_nil_iff, List.dropWhile_eq_nil_iff]
    simp only [List.mem_reverse]
  have hleft : t.trimLeft = [] ↔ ∀ c ∈ t, isBlank c = true := List.dropWhile_eq_nil_iff
  rw [trim, hright, ← hleft]
  constructor
  · intro h
    refine List.eq_nil_iff_forall_not_mem.mpr fun c hc ↦ ?_
    obtain ⟨d, rest, hcons⟩ := List.exists_cons_of_ne_nil (List.ne_nil_of_mem hc)
    have hd : isBlank d = false := eq_false_of_mem_head?_dropWhile (congrArg List.head? hcons)
    rw [h d (hcons ▸ List.mem_cons_self)] at hd
    exact Bool.noConfusion hd
  · intro h c hc
    rw [h] at hc
    exact absurd hc List.not_mem_nil

/-- White space around a text is trimmed away. -/
theorem trim_append_append {left right : Text} (hleft : ∀ c ∈ left, isBlank c = true)
    (hright : ∀ c ∈ right, isBlank c = true) : (left ++ t ++ right).trim = t.trim := by
  rw [List.append_assoc, trim, trimLeft, List.dropWhile_append_of_pos hleft, List.dropWhile_append]
  split
  · next hblank =>
    rw [List.dropWhile_eq_nil_iff.mpr hright, trim, trimLeft, List.isEmpty_iff.mp hblank]
  · rw [trimRight_append_of_isBlank hright]
    rfl

/-! ## Parts -/

theorem mem_getLast?_append_iff {s t : Text} {c : Char} :
    c ∈ (s ++ t).getLast? ↔ c ∈ t.getLast? ∨ t = [] ∧ c ∈ s.getLast? := by
  simp only [Option.mem_def, List.getLast?_append, Option.or_eq_some_iff,
    List.getLast?_eq_none_iff]

theorem slice_natCast (t : Text) (a b : Nat) : t.slice a b = (t.drop a).take (b - a) := by
  have hclamp (i : Nat) : clampOffset t.length i = min i t.length := by
    rw [clampOffset, if_neg (Int.not_lt.mpr (Int.natCast_nonneg i)), Int.toNat_natCast]
  simp only [slice, hclamp]
  rcases Nat.le_total a t.length with ha | ha
  · rw [Nat.min_eq_left ha, List.take_eq_take_iff, List.length_drop]
    omega
  · simp [List.drop_eq_nil_of_le, ha]

/-- A part of a part. -/
theorem take_drop_infix {a a' b b' : Nat} (ha : a ≤ a') (hb : b' ≤ b) (t : Text) :
    (t.drop a').take (b' - a') <:+: (t.drop a).take (b - a) := by
  have heq : (t.drop a').take (b' - a') =
      (((t.drop a).take (b - a)).drop (a' - a)).take (b' - a') := by
    rw [List.drop_take, List.take_take, List.drop_drop, Nat.add_sub_cancel' ha,
      Nat.min_eq_left (by omega)]
  rw [heq]
  exact (List.take_prefix _ _).isInfix.trans (List.drop_suffix _ _).isInfix

end CodeHealth.Text
