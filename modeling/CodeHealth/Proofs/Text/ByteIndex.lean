import CodeHealth.Source.Tree
import CodeHealth.Text.ByteIndex

/-!
# Boundaries of characters

Between the characters of a text, byte positions and offsets are in the same order, so a byte index
keeps apart what does not overlap, and keeps inside what lies inside.
-/

namespace CodeHealth

namespace Source

@[simp] theorem byteSize_append (s t : Text) : byteSize (s ++ t) = byteSize s + byteSize t := by
  induction s with
  | nil => simp [byteSize]
  | cons c s ih => rw [List.cons_append, byteSize, ih, byteSize, Nat.add_assoc]

theorem byteSize_pos {t : Text} (h : t ≠ []) : 0 < byteSize t := by
  obtain ⟨c, t, rfl⟩ := List.exists_cons_of_ne_nil h
  exact Nat.add_pos_left c.utf8Size_pos _

end Source

namespace Text

open Source

theorem byteSize_eq_length {t : Text} (h : ∀ c ∈ t, c.utf8Size = 1) : byteSize t = t.length := by
  induction t with
  | nil => rfl
  | cons c t ih =>
    rw [byteSize, h c List.mem_cons_self, ih fun d hd ↦ h d (List.mem_cons_of_mem c hd),
      List.length_cons, Nat.add_comm]

theorem getElem?_byteOffsets (i : Nat) (s t : Text) :
    (byteOffsets i (s ++ t))[byteSize s]? = some (i + s.length) := by
  induction s generalizing i with
  | nil =>
    cases t with
    | nil => rfl
    | cons c t =>
      have hpos : 0 < (List.replicate c.utf8Size i).length := by
        rw [List.length_replicate]
        exact c.utf8Size_pos
      rw [List.nil_append, byteOffsets, byteSize, List.getElem?_append_left hpos]
      simp [c.utf8Size_pos]
  | cons c s ih =>
    rw [List.cons_append, byteOffsets, byteSize, List.getElem?_append_right (by simp),
      List.length_replicate, Nat.add_sub_cancel_left, ih, List.length_cons, Nat.add_right_comm,
      Nat.add_assoc]

/-- The byte position behind a part of a text from its start belongs to the offset behind it. -/
theorem offset_byteSize {s t : Text} (h : s <+: t) :
    (ByteIndex.ofText t).offset (byteSize s) = s.length := by
  rw [ByteIndex.ofText]
  split
  · next hall =>
    refine byteSize_eq_length fun c hc ↦ ?_
    exact eq_of_beq (List.all_eq_true.mp hall c (h.subset hc))
  · obtain ⟨u, rfl⟩ := h
    simp [ByteIndex.offset, ByteIndex.offset?, getElem?_byteOffsets]

/-- A byte position that cuts no character of the text. -/
def IsBoundary (t : Text) (b : Nat) : Prop :=
  ∃ s, s <+: t ∧ b = byteSize s

namespace IsBoundary

variable {t : Text} {a b : Nat}

theorem offset_lt (ha : IsBoundary t a) (hb : IsBoundary t b) (h : a < b) :
    (ByteIndex.ofText t).offset a < (ByteIndex.ofText t).offset b := by
  obtain ⟨s, hs, rfl⟩ := ha
  obtain ⟨u, hu, rfl⟩ := hb
  rw [offset_byteSize hs, offset_byteSize hu]
  rcases List.prefix_or_prefix_of_prefix hs hu with ⟨v, rfl⟩ | ⟨v, rfl⟩
  · have hv : v ≠ [] := by
      rintro rfl
      simp at h
    rw [List.length_append]
    exact Nat.lt_add_of_pos_right (List.length_pos_iff.mpr hv)
  · rw [byteSize_append] at h
    omega

theorem offset_le (ha : IsBoundary t a) (hb : IsBoundary t b) (h : a ≤ b) :
    (ByteIndex.ofText t).offset a ≤ (ByteIndex.ofText t).offset b := by
  rcases Nat.lt_or_eq_of_le h with h | rfl
  · exact Nat.le_of_lt (ha.offset_lt hb h)
  · exact Nat.le_refl _

theorem offset_le_length (hb : IsBoundary t b) : (ByteIndex.ofText t).offset b ≤ t.length := by
  obtain ⟨s, hs, rfl⟩ := hb
  rw [offset_byteSize hs]
  exact hs.length_le

end IsBoundary

end Text

end CodeHealth
