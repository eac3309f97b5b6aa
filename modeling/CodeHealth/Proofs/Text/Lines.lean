import CodeHealth.Proofs.Except
import CodeHealth.Proofs.Text.Basic
import CodeHealth.Report.Located
import Mathlib.Data.Int.Init
import Mathlib.Data.List.Basic
import Mathlib.Data.List.TakeWhile

/-!
# Line numbers and offsets

A line reaches from the start of a text, or from behind a line feed, to the next line feed or the
end.  It has one number more than there are line feeds before it, so counting the line feeds before
an offset tells on which line the offset lies, and no other line holds it.
-/

namespace CodeHealth.Text

/-! ## Counting lines -/

theorem length_cutAt (sep : Char) (t : Text) : (t.cutAt sep).length = t.count sep + 1 := by
  induction t with
  | nil => rfl
  | cons c t ih =>
    rw [cutAt]
    split
    · next hc => rw [List.length_cons, ih, hc, List.count_cons_self]
    · next hc =>
      rw [List.count_cons_of_ne hc, ← ih]
      cases hparts : cutAt sep t with
      | nil => exact absurd hparts (cutAt_ne_nil sep t)
      | cons part more => rfl

theorem lineCount_eq (t : Text) : t.lineCount = t.count '\n' + 1 :=
  length_cutAt '\n' t

/-- The lines of a text, each with a line feed, have one line feed more than the text. -/
theorem extent_lines (t : Text) : extent t.lines = t.length + 1 := by
  rw [lines]
  induction t with
  | nil => rfl
  | cons c t ih =>
    rw [cutAt]
    split
    · rw [extent, ih, List.length_nil, List.length_cons, Nat.zero_add, Nat.add_comm]
    · cases hparts : cutAt '\n' t with
      | nil => exact absurd hparts (cutAt_ne_nil '\n' t)
      | cons part more =>
        rw [hparts, extent] at ih
        simp only [extent, List.length_cons]
        omega

theorem lineAt_natCast (t : Text) (i : Nat) : t.lineAt i = (t.take i).count '\n' + 1 := by
  rw [lineAt, ← Int.natCast_zero, slice_natCast, List.drop_zero, Nat.sub_zero]

theorem lineAt_le_lineCount (t : Text) (i : Nat) : t.lineAt i ≤ t.lineCount := by
  rw [lineAt_natCast, lineCount_eq]
  exact Nat.succ_le_succ ((List.take_sublist i t).count_le '\n')

theorem one_le_lineAt (t : Text) (i : Int) : 1 ≤ t.lineAt i :=
  Nat.le_add_left 1 _

/-- A part of a text has the lines from that of its start to that of its end. -/
theorem lineAt_add_lineCount_slice (t : Text) {a b : Nat} (h : a ≤ b) :
    t.lineAt a + (t.slice a b).lineCount = t.lineAt b + 1 := by
  obtain ⟨k, rfl⟩ := Nat.exists_eq_add_of_le h
  rw [lineAt_natCast, lineAt_natCast, lineCount_eq, slice_natCast, Nat.add_sub_cancel_left,
    List.take_add, List.count_append]
  omega

/-! ## Lines -/

/-- Line `n` of a text, with what stands before it and what stands behind it. -/
structure IsLine (t : Text) (n : Int) (before line after : Text) : Prop where
  eq_append : t = before ++ line ++ after
  notMem : '\n' ∉ line
  starts : ∀ c ∈ before.getLast?, c = '\n'
  stops : ∀ c ∈ after.head?, c = '\n'
  number : n = before.count '\n' + 1

theorem exists_eq_concat_of_starts {before : Text} (h : ∀ c ∈ before.getLast?, c = '\n') :
    before = [] ∨ ∃ above, before = above ++ ['\n'] := by
  rcases List.eq_nil_or_concat' before with rfl | ⟨above, c, rfl⟩
  · exact .inl rfl
  · obtain rfl : c = '\n' := h c List.getLast?_concat
    exact .inr ⟨above, rfl⟩

theorem exists_eq_cons_of_stops {after : Text} (h : ∀ c ∈ after.head?, c = '\n') :
    after = [] ∨ ∃ below, after = '\n' :: below := by
  cases after with
  | nil => exact .inl rfl
  | cons c below =>
    obtain rfl : c = '\n' := h c rfl
    exact .inr ⟨below, rfl⟩

/-- What stands behind a line feed, or at the start, begins with a line. -/
theorem isLine_takeWhile (before rest : Text) (h : ∀ c ∈ before.getLast?, c = '\n') :
    IsLine (before ++ rest) (before.count '\n' + 1) before (rest.takeWhile (· != '\n'))
      (rest.dropWhile (· != '\n')) where
  eq_append := by rw [List.append_assoc, List.takeWhile_append_dropWhile]
  notMem hmem := by simpa using List.mem_takeWhile_imp hmem
  starts := h
  stops c hc := by simpa using eq_false_of_mem_head?_dropWhile hc
  number := rfl

namespace IsLine

variable {t before line after : Text} {n : Int}

/-- Behind a line that does not end the text comes another. -/
theorem exists_next (h : IsLine t n before line after) (hafter : after ≠ []) :
    ∃ before line after, IsLine t (n + 1) before line after := by
  obtain ⟨rfl, hline, -, hstops, rfl⟩ := h
  obtain ⟨below, rfl⟩ := (exists_eq_cons_of_stops hstops).resolve_left hafter
  have hcount : (before ++ line ++ ['\n']).count '\n' = before.count '\n' + 1 := by
    rw [List.count_append, List.count_append, List.count_eq_zero.mpr hline]
    rfl
  have hnext := isLine_takeWhile (before ++ line ++ ['\n']) below
    fun c hc ↦ by simpa [eq_comm] using hc
  rw [hcount, List.append_assoc _ ['\n'], List.singleton_append] at hnext
  exact ⟨_, _, _, hnext⟩

theorem length_append_le (h : IsLine t n before line after) :
    before.length + line.length ≤ t.length := by
  rw [h.eq_append, List.length_append, List.length_append]
  exact Nat.le_add_right _ _

theorem after_ne_nil (h : IsLine t n before line after) (hn : n ≤ t.count '\n') : after ≠ [] := by
  rintro rfl
  obtain ⟨rfl, hline, -, -, rfl⟩ := h
  rw [List.append_nil, List.count_append, List.count_eq_zero.mpr hline] at hn
  omega

/-- The lines of the text up to this one, with the number of characters before it. -/
theorem exists_lines_eq (h : IsLine t n before line after) :
    ∃ ls more, t.lines = ls ++ line :: more ∧ extent ls = before.length ∧ n = ls.length + 1 := by
  obtain ⟨rfl, hline, hstarts, hstops, rfl⟩ := h
  have hrest : ∃ more, (line ++ after).lines = line :: more := by
    rcases exists_eq_cons_of_stops hstops with rfl | ⟨below, rfl⟩
    · exact ⟨[], by rw [List.append_nil, lines, cutAt_of_notMem hline]⟩
    · exact ⟨lines below, by rw [lines, cutAt_append_cons, cutAt_of_notMem hline]; rfl⟩
  obtain ⟨more, hmore⟩ := hrest
  rw [List.append_assoc]
  rcases exists_eq_concat_of_starts hstarts with rfl | ⟨above, rfl⟩
  · exact ⟨[], more, hmore, rfl, rfl⟩
  · refine ⟨above.lines, more, ?_, ?_, ?_⟩
    · rw [List.append_assoc, List.singleton_append, lines, cutAt_append_cons, ← lines, ← lines,
        hmore]
    · rw [extent_lines, List.length_append, List.length_singleton]
    · rw [lines, length_cutAt, List.count_append, List.count_singleton_self]

theorem splitAtLine_eq (h : IsLine t n before line after) :
    ∃ ls, t.splitAtLine n = .ok (ls, line) ∧ extent ls = before.length := by
  obtain ⟨ls, more, hlines, hextent, rfl⟩ := h.exists_lines_eq
  refine ⟨ls, ?_, hextent⟩
  have hpos : ¬ (ls.length + 1 : Int) < 1 := by omega
  simp [splitAtLine, hlines, hpos]

theorem lineOffset_eq (h : IsLine t n before line after) :
    t.lineOffset n = .ok (before.length + (line.takeWhile isBlank).length) := by
  obtain ⟨ls, hsplit, hextent⟩ := h.splitAtLine_eq
  rw [lineOffset, hsplit, ← hextent]
  rfl

theorem lineEndOffset_eq (h : IsLine t n before line after) :
    t.lineEndOffset n = .ok (before.length + line.length) := by
  obtain ⟨ls, hsplit, hextent⟩ := h.splitAtLine_eq
  rw [lineEndOffset, hsplit, ← hextent]
  rfl

/-- The line feeds before an offset number the line that holds it. -/
theorem lineAt_eq (h : IsLine t n before line after) {i : Nat} (hle : before.length ≤ i)
    (hge : i ≤ before.length + line.length) : (t.lineAt i : Int) = n := by
  obtain ⟨rfl, hline, -, -, rfl⟩ := h
  obtain ⟨k, rfl⟩ := Nat.exists_eq_add_of_le hle
  have hnone : (line.take k).count '\n' = 0 :=
    List.count_eq_zero.mpr fun hmem ↦ hline (List.mem_of_mem_take hmem)
  rw [lineAt_natCast, List.append_assoc, List.take_length_add_append,
    List.take_append_of_le_length (by omega), List.count_append, hnone]
  rfl

theorem length_before_le (h : IsLine t n before line after) {i : Nat} (hi : t.lineAt i = n) :
    before.length ≤ i := by
  obtain ⟨rfl, -, hstarts, -, rfl⟩ := h
  rcases exists_eq_concat_of_starts hstarts with rfl | ⟨above, rfl⟩
  · exact Nat.zero_le i
  · -- An offset before the line feed that ends `before` has one line feed less before it.
    by_contra hlt
    rw [List.length_append, List.length_singleton] at hlt
    rw [lineAt_natCast, List.append_assoc, List.append_assoc,
      List.take_append_of_le_length (by omega), List.count_append, List.count_singleton_self] at hi
    have hle := (List.take_sublist i above).count_le '\n'
    omega

theorem le_length_append (h : IsLine t n before line after) {i : Nat} (hi : t.lineAt i = n)
    (hlen : i ≤ t.length) : i ≤ before.length + line.length := by
  obtain ⟨rfl, -, -, hstops, rfl⟩ := h
  rcases exists_eq_cons_of_stops hstops with rfl | ⟨below, rfl⟩
  · simpa using hlen
  · -- An offset behind the line has the line feed that ends it before it.
    by_contra hlt
    obtain ⟨k, rfl⟩ := Nat.exists_eq_add_of_le (Nat.le_of_not_ge hlt)
    have hpos : 0 < k := by omega
    obtain ⟨k, rfl⟩ := Nat.exists_eq_add_one.mpr hpos
    rw [← List.length_append, lineAt_natCast, List.take_length_add_append, List.take_succ_cons,
      List.count_append, List.count_append, List.count_cons_self] at hi
    omega

end IsLine

/-- The numbers of the lines of a text. -/
def HasLine (t : Text) (n : Int) : Prop :=
  1 ≤ n ∧ n ≤ 1 + t.count '\n'

instance (t : Text) (n : Int) : Decidable (t.HasLine n) :=
  inferInstanceAs (Decidable (_ ∧ _))

variable {t : Text} {n : Int}

/-- Every number from one to that of the last line has its line. -/
theorem exists_isLine (h : t.HasLine n) : ∃ before line after, IsLine t n before line after := by
  obtain ⟨hpos, hn⟩ := h
  -- By induction on the number, from a line to the next.
  induction n, hpos using Int.leInduction with
  | base => exact ⟨_, _, _, isLine_takeWhile [] t (by simp)⟩
  | succ n hpos ih =>
    obtain ⟨before, line, after, h⟩ := ih (by omega)
    exact h.exists_next (h.after_ne_nil (by omega))

theorem hasLine_lineAt (t : Text) (i : Nat) : t.HasLine (t.lineAt i) := by
  have hle := lineAt_le_lineCount t i
  rw [lineCount_eq] at hle
  rw [lineAt_natCast] at hle ⊢
  constructor <;> omega

theorem exists_splitAtLine_eq_error_iff : (∃ e, t.splitAtLine n = .error e) ↔ ¬ t.HasLine n := by
  constructor
  · rintro ⟨e, he⟩ hn
    obtain ⟨before, line, after, h⟩ := exists_isLine hn
    obtain ⟨ls, hls, -⟩ := h.splitAtLine_eq
    rw [he] at hls
    cases hls
  · intro hn
    refine ⟨⟨n, t.lines.length⟩, ?_⟩
    rw [splitAtLine]
    split
    · rfl
    · next hpos =>
      have hcount : t.lines.length = t.count '\n' + 1 := length_cutAt '\n' t
      have hlast : 1 + (t.count '\n' : Int) < n := by
        by_contra hle
        exact hn ⟨by omega, by omega⟩
      rw [List.getElem?_eq_none (by omega)]

theorem exists_lineOffset_eq_error_iff : (∃ e, t.lineOffset n = .error e) ↔ ¬ t.HasLine n := by
  rw [← exists_splitAtLine_eq_error_iff]
  exact exists_congr fun e ↦ Except.map_eq_error_iff

theorem exists_lineEndOffset_eq_error_iff :
    (∃ e, t.lineEndOffset n = .error e) ↔ ¬ t.HasLine n := by
  rw [← exists_splitAtLine_eq_error_iff]
  exact exists_congr fun e ↦ Except.map_eq_error_iff

/-! ## The line of an offset -/

/-- The offset lies on line `n`: at its start, at its end or between them. -/
def OnLine (t : Text) (n i : Int) : Prop :=
  ∃ before line after stop, IsLine t n before line after ∧ t.lineEndOffset n = .ok stop ∧
    before.length ≤ i ∧ i ≤ (stop : Int)

theorem onLine_iff {i : Nat} (hi : i ≤ t.length) : t.OnLine n i ↔ n = t.lineAt i := by
  constructor
  · rintro ⟨before, line, after, stop, h, hstop, hle, hge⟩
    rw [h.lineEndOffset_eq, Except.ok.injEq] at hstop
    exact (h.lineAt_eq (by omega) (by omega)).symm
  · rintro rfl
    obtain ⟨before, line, after, h⟩ := exists_isLine (hasLine_lineAt t i)
    refine ⟨before, line, after, _, h, h.lineEndOffset_eq, ?_, ?_⟩
    · exact Int.ofNat_le.mpr (h.length_before_le rfl)
    · exact Int.ofNat_le.mpr (h.le_length_append rfl hi)

theorem onLine_iff_of_nonneg {i : Int} (hi : 0 ≤ i ∧ i ≤ t.length) :
    t.OnLine n i ↔ n = t.lineAt i := by
  obtain ⟨hpos, hle⟩ := hi
  obtain ⟨k, rfl⟩ := Int.eq_ofNat_of_zero_le hpos
  exact onLine_iff (Int.ofNat_le.mp hle)

/-- Line numbers and offsets determine each other.  A number that no line has is refused.  Any other
line is white space and then a content that does not begin with any: the offset of the line is that
of its content, the end offset is behind it, and findings there are shown on the line.  And an
offset of the text is shown on the one line that holds it. -/
theorem lines_offsets_inverse (t file : Text) :
    (∀ n : Int, ((∃ e, t.lineOffset n = .error e) ↔ n < 1 ∨ 1 + (t.count '\n' : Int) < n) ∧
      ((∃ e, t.lineEndOffset n = .error e) ↔ n < 1 ∨ 1 + (t.count '\n' : Int) < n)) ∧
    (∀ n : Int, t.HasLine n → ∃ first stop, t.lineOffset n = .ok first ∧
      t.lineEndOffset n = .ok stop ∧ first ≤ stop ∧ stop ≤ t.length ∧
      (∀ f : Finding, f.start = first → f.stop = stop →
        (f.locate file t).startLine = n ∧ (f.locate file t).endLine = n) ∧
      ∃ before blanks content after, IsLine t n before (blanks ++ content) after ∧
        first = (before ++ blanks).length ∧ stop = (before ++ blanks ++ content).length ∧
        (∀ c ∈ blanks, isBlank c = true) ∧ ∀ c ∈ content.head?, isBlank c = false) ∧
    ∀ (f : Finding) (n : Int),
      (0 ≤ f.start ∧ f.start ≤ t.length → (t.OnLine n f.start ↔ n = (f.locate file t).startLine)) ∧
      (0 ≤ f.stop ∧ f.stop ≤ t.length → (t.OnLine n f.stop ↔ n = (f.locate file t).endLine)) := by
  refine ⟨fun n ↦ ?_, fun n hn ↦ ?_, fun f n ↦ ⟨onLine_iff_of_nonneg, onLine_iff_of_nonneg⟩⟩
  · have hnot : ¬ t.HasLine n ↔ n < 1 ∨ 1 + (t.count '\n' : Int) < n := by
      rw [HasLine, not_and_or, Int.not_le, Int.not_le]
    exact ⟨exists_lineOffset_eq_error_iff.trans hnot, exists_lineEndOffset_eq_error_iff.trans hnot⟩
  · obtain ⟨before, line, after, h⟩ := exists_isLine hn
    have hblanks : (line.takeWhile isBlank).length ≤ line.length :=
      (List.takeWhile_prefix isBlank).length_le
    refine ⟨_, _, h.lineOffset_eq, h.lineEndOffset_eq, by omega, h.length_append_le, ?_, ?_⟩
    · intro f hstart hstop
      constructor
      · show (t.lineAt f.start : Int) = n
        rw [hstart]
        exact h.lineAt_eq (by omega) (by omega)
      · show (t.lineAt f.stop : Int) = n
        rw [hstop]
        exact h.lineAt_eq (by omega) (by omega)
    · have hline : line.takeWhile isBlank ++ line.dropWhile isBlank = line :=
        List.takeWhile_append_dropWhile
      refine ⟨before, line.takeWhile isBlank, line.dropWhile isBlank, after, hline.symm ▸ h, ?_, ?_,
        fun c hc ↦ List.mem_takeWhile_imp hc, fun c hc ↦ eq_false_of_mem_head?_dropWhile hc⟩
      · rw [List.length_append]
      · rw [List.append_assoc, hline, List.length_append]

/-- A text whose second line is indented and whose last one is empty. -/
def indentedText : Text := ['a', '\n', ' ', 'b', '\n']

theorem lines_offsets_inverse_indentedText :
    (∃ e, indentedText.lineOffset 4 = .error e) ∧ indentedText.HasLine 2 ∧
    (∃ first stop, indentedText.lineOffset 2 = .ok first ∧ indentedText.lineEndOffset 2 = .ok stop ∧
      first ≤ stop ∧ stop ≤ indentedText.length) ∧
    ∀ n, indentedText.OnLine n 5 ↔ n = 3 := by
  have hline : indentedText.HasLine 2 := by decide
  obtain ⟨hfault, hoffsets, hinverse⟩ := lines_offsets_inverse indentedText []
  obtain ⟨first, stop, hfirst, hstop, hle, hlength, -⟩ := hoffsets 2 hline
  exact ⟨(hfault 4).1.mpr (by decide), hline, ⟨first, stop, hfirst, hstop, hle, hlength⟩,
    fun n ↦ (hinverse ⟨.repetition, .warning, 5, 5⟩ n).1 (by decide)⟩

end CodeHealth.Text
