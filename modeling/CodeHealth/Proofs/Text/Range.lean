import CodeHealth.Proofs.Text.Lines

/-!
# Ranges of lines

A range of lines reaches from the offset of one line, behind its indentation, to the end offset of
the same or a later one.  It has as many lines as there are from the one to the other.  What holds
no line feed and does not begin with white space occurs in the range exactly if it occurs on one of
the lines: an occurrence begins and ends on the same line, and not in white space.
-/

namespace CodeHealth.Text

variable {t part : Text}

/-- What occurs in a part of a text occurs there at an offset. -/
theorem infix_slice_iff {a b : Nat} (hab : a ≤ b) (hb : b ≤ t.length) :
    part <:+: t.slice a b ↔ ∃ i, a ≤ i ∧ i + part.length ≤ b ∧ part <+: t.drop i := by
  rw [slice_natCast]
  constructor
  · rintro ⟨s, rest, h⟩
    have hlength : s.length + part.length + rest.length = b - a := by
      rw [← List.length_append, ← List.length_append, h, List.length_take, List.length_drop]
      omega
    obtain ⟨more, hmore⟩ : s ++ part ++ rest <+: t.drop a := h ▸ List.take_prefix (b - a) _
    refine ⟨a + s.length, by omega, by omega, ?_⟩
    rw [← List.drop_drop, ← hmore, List.append_assoc, List.append_assoc, List.drop_left]
    exact List.prefix_append part _
  · rintro ⟨i, ha, hstop, hpart⟩
    have heq : (t.drop i).take (i + part.length - i) = part := by
      rw [Nat.add_sub_cancel_left]
      exact (List.prefix_iff_eq_take.mp hpart).symm
    rw [← heq]
    exact take_drop_infix ha hstop t

theorem lineAt_mono (t : Text) {i j : Nat} (h : i ≤ j) : t.lineAt i ≤ t.lineAt j := by
  have hlines := t.lineAt_add_lineCount_slice h
  rw [lineCount_eq] at hlines
  omega

/-- An occurrence without line feeds ends on the line on which it begins. -/
theorem lineAt_add_length (hfeed : '\n' ∉ part) {i : Nat} (h : part <+: t.drop i) :
    t.lineAt ((i + part.length : Nat) : Int) = t.lineAt i := by
  rw [lineAt_natCast, lineAt_natCast, List.take_add, ← List.prefix_iff_eq_take.mp h,
    List.count_append, List.count_eq_zero.mpr hfeed]

namespace IsLine

variable {before line after : Text} {n : Int}

theorem slice_eq (h : IsLine t n before line after) :
    t.slice before.length (before.length + line.length : Nat) = line := by
  rw [slice_natCast, Nat.add_sub_cancel_left, h.eq_append, List.append_assoc, List.drop_left,
    List.take_left]

theorem infix_iff (h : IsLine t n before line after) :
    part <:+: line ↔ ∃ i, before.length ≤ i ∧ i + part.length ≤ before.length + line.length ∧
      part <+: t.drop i := by
  rw [← infix_slice_iff (Nat.le_add_right _ _) h.length_append_le, h.slice_eq]

theorem lineAt_start (h : IsLine t n before line after) : (t.lineAt before.length : Int) = n :=
  h.lineAt_eq (Nat.le_refl _) (Nat.le_add_right _ _)

theorem lineAt_indent (h : IsLine t n before line after) :
    (t.lineAt (before.length + (line.takeWhile isBlank).length : Nat) : Int) = n := by
  apply h.lineAt_eq (Nat.le_add_right _ _)
  exact Nat.add_le_add_left (List.takeWhile_prefix isBlank).length_le _

theorem lineAt_stop (h : IsLine t n before line after) :
    (t.lineAt (before.length + line.length : Nat) : Int) = n :=
  h.lineAt_eq (Nat.le_add_right _ _) (Nat.le_refl _)

/-- Offsets on this line and below are not before it. -/
theorem start_le (h : IsLine t n before line after) {i : Nat} (hi : n ≤ t.lineAt i) :
    before.length ≤ i := by
  by_contra hlt
  have hmono := t.lineAt_mono (Nat.le_of_not_le hlt)
  have hstart := h.lineAt_start
  exact hlt (h.length_before_le (by omega))

/-- Offsets on this line and above are not behind it. -/
theorem le_stop (h : IsLine t n before line after) {i : Nat} (hi : t.lineAt i ≤ n)
    (hlen : i ≤ t.length) : i ≤ before.length + line.length := by
  by_contra hlt
  have hmono := t.lineAt_mono (Nat.le_of_not_le hlt)
  have hstop := h.lineAt_stop
  exact hlt (h.le_length_append (by omega) hlen)

/-- What does not begin with white space occurs on a line only behind its indentation. -/
theorem indent_le (h : IsLine t n before line after) {c : Char} (hc : c ∈ part.head?)
    (hsolid : isBlank c = false) {i : Nat} (hi : before.length ≤ i) (hpart : part <+: t.drop i) :
    before.length + (line.takeWhile isBlank).length ≤ i := by
  by_contra hlt
  obtain ⟨rest, rfl⟩ : ∃ rest, part = c :: rest := List.head?_eq_some_iff.mp hc
  obtain ⟨k, rfl⟩ := Nat.exists_eq_add_of_le hi
  have hk : k < (line.takeWhile isBlank).length := by omega
  have hsplit : t = before ++ (line.takeWhile isBlank ++ (line.dropWhile isBlank ++ after)) := by
    rw [← List.append_assoc _ _ after, List.takeWhile_append_dropWhile, ← List.append_assoc]
    exact h.eq_append
  rw [hsplit, ← List.drop_drop, List.drop_left, List.drop_append_of_le_length hk.le,
    List.drop_eq_getElem_cons hk, List.cons_append, List.cons_prefix_cons] at hpart
  have hblank : isBlank c = true := by
    rw [hpart.1]
    exact List.mem_takeWhile_imp (List.getElem_mem hk)
  exact absurd hblank (ne_true_of_eq_false hsolid)

end IsLine

section Range

variable {n m : Int} {before line after before' line' after' : Text}

theorem indent_le_stop (hn : IsLine t n before line after) (hm : IsLine t m before' line' after')
    (hnm : n ≤ m) : before.length + (line.takeWhile isBlank).length ≤
      before'.length + line'.length := by
  refine hm.le_stop (hn.lineAt_indent.symm ▸ hnm) (Nat.le_trans ?_ hn.length_append_le)
  exact Nat.add_le_add_left (List.takeWhile_prefix isBlank).length_le _

/-- A range has the lines from its first to its last. -/
theorem lineCount_slice_lines (hn : IsLine t n before line after)
    (hm : IsLine t m before' line' after') (hnm : n ≤ m) :
    ((t.slice (before.length + (line.takeWhile isBlank).length : Nat)
      (before'.length + line'.length : Nat)).lineCount : Int) = m - n + 1 := by
  have hcount := t.lineAt_add_lineCount_slice (indent_le_stop hn hm hnm)
  have hfirst := hn.lineAt_indent
  have hlast := hm.lineAt_stop
  omega

/-- What holds no line feed and begins with no white space occurs in a range exactly if it occurs on
one of its lines. -/
theorem infix_slice_lines_iff (hn : IsLine t n before line after)
    (hm : IsLine t m before' line' after') (hnm : n ≤ m) (hfeed : '\n' ∉ part)
    (hhead : ∃ c ∈ part.head?, isBlank c = false) :
    part <:+: t.slice (before.length + (line.takeWhile isBlank).length : Nat)
        (before'.length + line'.length : Nat) ↔
      ∃ k before line after, n ≤ k ∧ k ≤ m ∧ IsLine t k before line after ∧ part <:+: line := by
  rw [infix_slice_iff (indent_le_stop hn hm hnm) hm.length_append_le]
  constructor
  · -- The line on which the occurrence begins is also the one on which it ends.
    rintro ⟨i, hstart, hstop, hpart⟩
    obtain ⟨before, line, after, hk⟩ := exists_isLine (hasLine_lineAt t i)
    refine ⟨t.lineAt i, before, line, after, ?_, ?_, hk, hk.infix_iff.mpr ⟨i, ?_, ?_, hpart⟩⟩
    · rw [← hn.lineAt_indent]
      exact Int.ofNat_le.mpr (t.lineAt_mono hstart)
    · rw [← hm.lineAt_stop]
      exact Int.ofNat_le.mpr (t.lineAt_mono ((Nat.le_add_right _ _).trans hstop))
    · exact hk.length_before_le rfl
    · apply hk.le_length_append
      · rw [lineAt_add_length hfeed hpart]
      · exact hstop.trans hm.length_append_le
  · rintro ⟨k, before, line, after, hnk, hkm, hk, hpart⟩
    obtain ⟨i, hstart, hstop, hpart⟩ := hk.infix_iff.mp hpart
    have hbegin : (t.lineAt i : Int) = k :=
      hk.lineAt_eq hstart ((Nat.le_add_right _ _).trans hstop)
    have hend := hk.lineAt_eq (hstart.trans (Nat.le_add_right _ _)) hstop
    obtain ⟨c, hc, hsolid⟩ := hhead
    refine ⟨i, ?_, ?_, hpart⟩
    · exact hn.indent_le hc hsolid (hn.start_le (hbegin.symm ▸ hnk)) hpart
    · exact hm.le_stop (hend.symm ▸ hkm) (hstop.trans hk.length_append_le)

end Range

end CodeHealth.Text
