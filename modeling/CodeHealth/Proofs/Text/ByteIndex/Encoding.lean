import CodeHealth.Proofs.Text.Basic
import CodeHealth.Proofs.Text.ByteIndex
import CodeHealth.Proofs.Text.Utf8

/-!
# Byte indices invert encoding

A position in the bytes of a text lies in one of its characters or at the end.  The offsets that a
table lists for the positions are those of these characters, so they go up with the positions and
lead back from the bytes before a character to the characters before it.  A text whose bytes are as
many as its characters has characters of one byte only, and then the table would list the positions
themselves.
-/

namespace CodeHealth.Text

open Source

/-! ## Sizes -/

theorem encode_append (s t : Text) : encode (s ++ t) = encode s ++ encode t := by
  rw [encode_eq_flatMap, encode_eq_flatMap, encode_eq_flatMap, List.flatMap_append]

theorem length_encode (t : Text) : (encode t).length = byteSize t := by
  induction t with
  | nil => rw [encode_nil, byteSize, List.length_nil]
  | cons c t ih =>
    rw [encode_cons, List.length_append, String.length_utf8EncodeChar, ih, byteSize]

theorem length_le_byteSize (t : Text) : t.length ≤ byteSize t := by
  induction t with
  | nil => exact Nat.le_refl 0
  | cons c t ih =>
    have hc := c.utf8Size_pos
    rw [byteSize, List.length_cons]
    omega

/-- Equal lengths leave one byte for each character. -/
theorem utf8Size_eq_one_of_mem {t : Text} (h : t.length = byteSize t) {c : Char} (hc : c ∈ t) :
    c.utf8Size = 1 := by
  induction t with
  | nil => exact absurd hc List.not_mem_nil
  | cons d t ih =>
    have hd := d.utf8Size_pos
    have hle := length_le_byteSize t
    rw [byteSize, List.length_cons] at h
    rcases List.mem_cons.mp hc with rfl | hc
    · omega
    · exact ih (by omega) hc

theorem ofText_eq_same_iff {t : Text} :
    ByteIndex.ofText t = .same ↔ t.length = (encode t).length := by
  rw [ByteIndex.ofText, length_encode]
  split
  · next hall =>
    refine iff_of_true rfl (byteSize_eq_length fun c hc ↦ ?_).symm
    exact eq_of_beq (List.all_eq_true.mp hall c hc)
  · next hall =>
    refine iff_of_false (by rintro ⟨⟩) fun h ↦ hall (List.all_eq_true.mpr fun c hc ↦ ?_)
    exact beq_iff_eq.mpr (utf8Size_eq_one_of_mem h hc)

/-! ## Tables of offsets -/

theorem length_byteOffsets (i : Nat) (t : Text) : (byteOffsets i t).length = byteSize t + 1 := by
  induction t generalizing i with
  | nil => rfl
  | cons c t ih =>
    rw [byteOffsets, List.length_append, List.length_replicate, ih, byteSize, Nat.add_assoc]

theorem le_of_mem_byteOffsets {i j : Nat} {t : Text} (hj : j ∈ byteOffsets i t) : i ≤ j := by
  induction t generalizing i with
  | nil => exact Nat.le_of_eq (List.mem_singleton.mp hj).symm
  | cons c t ih =>
    rcases List.mem_append.mp hj with hj | hj
    · exact Nat.le_of_eq (List.eq_of_mem_replicate hj).symm
    · exact Nat.le_of_succ_le (ih hj)

theorem pairwise_byteOffsets (i : Nat) (t : Text) : (byteOffsets i t).Pairwise (· ≤ ·) := by
  induction t generalizing i with
  | nil => exact List.pairwise_singleton _ i
  | cons c t ih =>
    refine List.pairwise_append.mpr ⟨?_, ih (i + 1), fun a ha b hb ↦ ?_⟩
    · exact List.pairwise_replicate.mpr (.inr (Nat.le_refl i))
    · rw [List.eq_of_mem_replicate ha]
      exact Nat.le_of_succ_le (le_of_mem_byteOffsets hb)

theorem byteOffsets_eq_range' {t : Text} (h : ∀ c ∈ t, c.utf8Size = 1) (i : Nat) :
    byteOffsets i t = List.range' i (t.length + 1) := by
  induction t generalizing i with
  | nil => rfl
  | cons c t ih =>
    obtain ⟨hc, ht⟩ := List.forall_mem_cons.mp h
    rw [byteOffsets, hc, ih ht, List.length_cons, List.range'_succ]
    rfl

/-- A byte of a character is listed with the number of characters before. -/
theorem getElem?_byteOffsets_inside (i : Nat) (s : Text) {c : Char} (t : Text) {k : Nat}
    (hk : k < c.utf8Size) :
    (byteOffsets i (s ++ c :: t))[byteSize s + k]? = some (i + s.length) := by
  induction s generalizing i with
  | nil =>
    have hk' : k < (List.replicate c.utf8Size i).length := by rwa [List.length_replicate]
    rw [List.nil_append, byteOffsets, byteSize, Nat.zero_add, List.getElem?_append_left hk',
      List.getElem?_replicate, if_pos hk, List.length_nil, Nat.add_zero]
  | cons d s ih =>
    rw [List.cons_append, byteOffsets, byteSize, Nat.add_assoc,
      List.getElem?_append_right (by simp), List.length_replicate, Nat.add_sub_cancel_left, ih,
      List.length_cons, Nat.add_right_comm, Nat.add_assoc]

/-! ## Offsets of positions -/

/-- On the positions of a text its index is the table, also where none is kept. -/
theorem offset?_eq_getElem? {t : Text} {b : Nat} (hb : b ≤ (encode t).length) :
    (ByteIndex.ofText t).offset? b = (byteOffsets 0 t)[b]? := by
  by_cases h : t.length = (encode t).length
  · rw [ofText_eq_same_iff.mpr h]
    rw [length_encode] at h
    rw [byteOffsets_eq_range' (fun c hc ↦ utf8Size_eq_one_of_mem h hc),
      List.getElem?_range' (by rw [h, ← length_encode]; omega), Nat.zero_add, Nat.one_mul]
    rfl
  · have htable : ByteIndex.ofText t = .table (byteOffsets 0 t).toArray := by
      rw [← ofText_eq_same_iff, ByteIndex.ofText] at h
      rw [ByteIndex.ofText, if_neg fun hall ↦ h (if_pos hall)]
    rw [htable, ByteIndex.offset?, List.getElem?_toArray]

theorem offset?_length_encode {s t : Text} (h : s <+: t) :
    (ByteIndex.ofText t).offset? (encode s).length = some s.length := by
  obtain ⟨u, rfl⟩ := h
  have hb : (encode s).length ≤ (encode (s ++ u)).length := by
    rw [encode_append, List.length_append]
    exact Nat.le_add_right _ _
  rw [offset?_eq_getElem? hb, length_encode, getElem?_byteOffsets, Nat.zero_add]

theorem offset?_inside (s : Text) {c : Char} (t : Text) {k : Nat} (hk : k < (encode [c]).length) :
    (ByteIndex.ofText (s ++ c :: t)).offset? ((encode s).length + k) = some s.length := by
  have hb : (encode s).length + k ≤ (encode (s ++ c :: t)).length := by
    rw [← List.singleton_append, encode_append, encode_append, List.length_append,
      List.length_append]
    omega
  have hk' : k < c.utf8Size := by rwa [length_encode] at hk
  rw [offset?_eq_getElem? hb, length_encode, getElem?_byteOffsets_inside 0 s t hk', Nat.zero_add]

theorem offset?_mono {t : Text} {a b i j : Nat} (hab : a ≤ b) (hb : b ≤ (encode t).length)
    (hi : (ByteIndex.ofText t).offset? a = some i) (hj : (ByteIndex.ofText t).offset? b = some j) :
    i ≤ j := by
  rw [offset?_eq_getElem? (hab.trans hb)] at hi
  rw [offset?_eq_getElem? hb] at hj
  obtain ⟨ha', rfl⟩ := List.getElem?_eq_some_iff.mp hi
  obtain ⟨hb', rfl⟩ := List.getElem?_eq_some_iff.mp hj
  rcases Nat.lt_or_eq_of_le hab with hab | rfl
  · exact List.pairwise_iff_getElem.mp (pairwise_byteOffsets 0 t) a b ha' hb' hab
  · exact Nat.le_refl _

theorem exists_offset?_eq_some {t : Text} {b : Nat} (hb : b ≤ (encode t).length) :
    ∃ i ≤ t.length, (ByteIndex.ofText t).offset? b = some i := by
  have hlt : b < (byteOffsets 0 t).length := by
    rw [length_byteOffsets, ← length_encode]
    exact Nat.lt_succ_of_le hb
  have hi : (ByteIndex.ofText t).offset? b = some (byteOffsets 0 t)[b] := by
    rw [offset?_eq_getElem? hb, List.getElem?_eq_getElem hlt]
  exact ⟨_, offset?_mono hb (Nat.le_refl _) hi (offset?_length_encode (List.prefix_refl t)), hi⟩

/-- Two boundaries cut a text in three. -/
theorem IsBoundary.exists_eq_append {t : Text} {a b : Nat} (ha : IsBoundary t a)
    (hb : IsBoundary t b) (hab : a ≤ b) :
    ∃ s u v, t = s ++ (u ++ v) ∧ a = byteSize s ∧ b = byteSize (s ++ u) := by
  obtain ⟨s, hs, rfl⟩ := ha
  obtain ⟨s', hs', rfl⟩ := hb
  rcases List.prefix_or_prefix_of_prefix hs hs' with ⟨u, rfl⟩ | ⟨u, rfl⟩
  · obtain ⟨v, rfl⟩ := hs'
    exact ⟨s, u, v, List.append_assoc s u v, rfl, rfl⟩
  · -- The boundaries are the same, with nothing in between.
    have hu : u = [] := by
      by_contra hne
      have hpos := byteSize_pos hne
      rw [byteSize_append] at hab
      omega
    subst hu
    obtain ⟨v, rfl⟩ := hs'
    exact ⟨s', [], v, rfl, by rw [List.append_nil], by rw [List.append_nil]⟩

/-- The characters between two boundaries are those of the bytes between them. -/
theorem IsBoundary.encode_slice {t : Text} {a b : Nat} (ha : IsBoundary t a) (hb : IsBoundary t b)
    (hab : a ≤ b) :
    encode (t.slice ((ByteIndex.ofText t).offset a) ((ByteIndex.ofText t).offset b)) =
      ((encode t).drop a).take (b - a) := by
  obtain ⟨s, u, v, rfl, rfl, rfl⟩ := ha.exists_eq_append hb hab
  have hchars : (s ++ (u ++ v)).slice ((ByteIndex.ofText (s ++ (u ++ v))).offset (byteSize s))
      ((ByteIndex.ofText (s ++ (u ++ v))).offset (byteSize (s ++ u))) = u := by
    rw [offset_byteSize (List.prefix_append s _), offset_byteSize ⟨v, List.append_assoc s u v⟩,
      slice_natCast, List.length_append, Nat.add_sub_cancel_left, List.drop_left, List.take_left]
  rw [hchars, byteSize_append, Nat.add_sub_cancel_left, ← length_encode, ← length_encode,
    encode_append, List.drop_left, encode_append, List.take_left]

/-- The index of a text leads from the number of bytes before a character to the number of
characters before it.  It is defined on all positions, never goes down, and leads from every byte of
a character to that character.  It keeps no table exactly if the text has as many bytes as
characters, and agrees with the table all the same.  So the characters between the offsets of two
boundaries are encoded by the bytes between the boundaries. -/
theorem offset?_inverts_encode (t : Text) :
    (∀ i ≤ t.length, (ByteIndex.ofText t).offset? (encode (t.take i)).length = some i) ∧
    (∀ b ≤ (encode t).length, ∃ i ≤ t.length, (ByteIndex.ofText t).offset? b = some i) ∧
    (∀ a b i j, a ≤ b → b ≤ (encode t).length → (ByteIndex.ofText t).offset? a = some i →
      (ByteIndex.ofText t).offset? b = some j → i ≤ j) ∧
    (∀ i (hi : i < t.length), ∀ k < (encode [t[i]]).length,
      (ByteIndex.ofText t).offset? ((encode (t.take i)).length + k) = some i) ∧
    (ByteIndex.ofText t = .same ↔ t.length = (encode t).length) ∧
    (∀ b ≤ (encode t).length, (ByteIndex.ofText t).offset? b = (byteOffsets 0 t)[b]?) ∧
    (∀ a b, IsBoundary t a → IsBoundary t b → a ≤ b →
      encode (t.slice ((ByteIndex.ofText t).offset a) ((ByteIndex.ofText t).offset b)) =
        ((encode t).drop a).take (b - a)) := by
  refine ⟨fun i hi ↦ ?_, fun b hb ↦ exists_offset?_eq_some hb,
    fun a b i j hab hb hi hj ↦ offset?_mono hab hb hi hj, fun i hi k hk ↦ ?_, ofText_eq_same_iff,
    fun b hb ↦ offset?_eq_getElem? hb, fun a b ha hb hab ↦ ha.encode_slice hb hab⟩
  · have hoffset := offset?_length_encode (List.take_prefix i t)
    rwa [List.length_take_of_le hi] at hoffset
  · have hoffset := offset?_inside (t.take i) (t.drop (i + 1)) hk
    rwa [← List.drop_eq_getElem_cons hi, List.take_append_drop,
      List.length_take_of_le (Nat.le_of_lt hi)] at hoffset

/-- Characters of one to four bytes. -/
def widths : Text :=
  ['a', 'é', '€', '😀']

/-- The third character has three bytes, from the fourth position on; it lies between the boundaries
at three and six. -/
theorem offset?_inverts_encode_widths :
    (encode widths).length = 10 ∧ (ByteIndex.ofText widths).offset? 3 = some 2 ∧
      (ByteIndex.ofText widths).offset? 5 = some 2 ∧
      (∃ i ≤ 4, (ByteIndex.ofText widths).offset? 10 = some i) ∧
      encode (widths.slice ((ByteIndex.ofText widths).offset 3)
        ((ByteIndex.ofText widths).offset 6)) = ((encode widths).drop 3).take 3 := by
  have hlength : (encode widths).length = 10 := by
    rw [length_encode]
    rfl
  have htake : (encode (widths.take 2)).length = 3 := by
    rw [length_encode]
    rfl
  have hthird : 2 < (encode [widths[2]]).length := by
    rw [length_encode]
    decide
  obtain ⟨hbefore, hdefined, -, hinside, -, -, hslice⟩ := offset?_inverts_encode widths
  have h3 : IsBoundary widths 3 := ⟨widths.take 2, List.take_prefix 2 widths, rfl⟩
  have h6 : IsBoundary widths 6 := ⟨widths.take 3, List.take_prefix 3 widths, rfl⟩
  refine ⟨hlength, ?_, ?_, hdefined 10 (Nat.le_of_eq hlength.symm), hslice 3 6 h3 h6 (by decide)⟩
  · have hoffset := hbefore 2 (by decide)
    rwa [htake] at hoffset
  · have hoffset := hinside 2 (by decide) 2 hthird
    rwa [htake] at hoffset

end CodeHealth.Text
