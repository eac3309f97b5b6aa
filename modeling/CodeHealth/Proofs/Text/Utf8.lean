import CodeHealth.Proofs.Except
import CodeHealth.Text.Utf8
import Mathlib.Data.List.TakeWhile
import Mathlib.Tactic.SplitIfs

/-!
# Decoding inverts encoding

A start byte with the bytes that it announces is the encoding of one character, and every character
is encoded in this way.  So bytes are decoded if and only if they are the encoding of a text, and
then to this text.
-/

namespace CodeHealth.Text

/-! ## Encoding -/

theorem toList_loop (bs : ByteArray) (i : Nat) (read : List UInt8) :
    ByteArray.toList.loop bs i read = read.reverse ++ bs.data.toList.drop i := by
  fun_induction ByteArray.toList.loop bs i read with
  | case1 i read hi ih =>
    have hi' : i < bs.data.toList.length := hi
    rw [ih, List.drop_eq_getElem_cons hi', List.reverse_cons, List.append_assoc]
    congr 1
    simp [ByteArray.get!, getElem!_pos bs.data i hi]
  | case2 i read hi =>
    have hi' : bs.data.toList.length ≤ i := Nat.le_of_not_lt hi
    rw [List.drop_eq_nil_of_le hi', List.append_nil]

theorem encode_eq_flatMap (t : Text) : encode t = t.flatMap String.utf8EncodeChar := by
  rw [encode, String.toUTF8_eq_toByteArray, String.toByteArray_ofList, List.utf8Encode,
    ByteArray.toList, toList_loop, List.data_toByteArray]
  rfl

@[simp] theorem encode_nil : encode [] = [] := by
  rw [encode_eq_flatMap, List.flatMap_nil]

theorem encode_cons (c : Char) (t : Text) : encode (c :: t) = String.utf8EncodeChar c ++ encode t := by
  rw [encode_eq_flatMap, encode_eq_flatMap, List.flatMap_cons]

/-! ## Sequences -/

section Bytes

variable {a b : UInt8} {n : Nat}

theorem isContinuation_iff : isContinuation b = true ↔ 128 ≤ b.toNat ∧ b.toNat ≤ 191 := by
  simp [isContinuation, UInt8.le_iff_toNat_le]

theorem isSecondByte_iff :
    isSecondByte a b = true ↔ (128 ≤ b.toNat ∧ b.toNat ≤ 191) ∧ (a.toNat = 224 → 160 ≤ b.toNat) ∧
      (a.toNat = 237 → b.toNat ≤ 159) ∧ (a.toNat = 240 → 144 ≤ b.toNat) ∧
      (a.toNat = 244 → b.toNat ≤ 143) := by
  rw [isSecondByte, Bool.and_eq_true, isContinuation_iff]
  simp only [beq_iff_eq, ← UInt8.toNat_inj, UInt8.reduceToNat]
  refine and_congr_right fun _ ↦ ?_
  split_ifs <;> simp [UInt8.le_iff_toNat_le] <;> omega

theorem sequenceLength?_eq_some_iff :
    sequenceLength? a = some n ↔ (n = 1 ∧ a.toNat ≤ 127) ∨ (n = 2 ∧ 194 ≤ a.toNat ∧ a.toNat ≤ 223) ∨
      (n = 3 ∧ 224 ≤ a.toNat ∧ a.toNat ≤ 239) ∨ (n = 4 ∧ 240 ≤ a.toNat ∧ a.toNat ≤ 244) := by
  simp only [sequenceLength?, Bool.and_eq_true, decide_eq_true_eq, UInt8.le_iff_toNat_le,
    UInt8.reduceToNat]
  split_ifs <;> simp <;> omega

/-- The bytes behind a start byte are in order. -/
def Follow (a : UInt8) : Bytes → Prop
  | [] => True
  | b :: more => isSecondByte a b = true ∧ ∀ c ∈ more, isContinuation c = true

/-- A start byte with the bytes that it announces. -/
structure IsSequence (a : UInt8) (more : Bytes) : Prop where
  announced : sequenceLength? a = some (more.length + 1)
  follow : Follow a more

theorem toNat_val_ofNat {n : Nat} (h : n.isValidChar) : (Char.ofNat n).val.toNat = n := by
  rw [Char.ofNat, dif_pos h]
  rfl

theorem ofNat_eq_of_eq_toNat (h : n = a.toNat) : UInt8.ofNat n = a := by
  rw [h, UInt8.ofNat_toNat]

/-- A sequence is the encoding of the character with its code point. -/
theorem utf8EncodeChar_codePoint {more : Bytes} (h : IsSequence a more) :
    String.utf8EncodeChar (Char.ofNat (codePoint a more)) = a :: more := by
  obtain ⟨hlength, hfollow⟩ := h
  rw [sequenceLength?_eq_some_iff] at hlength
  match more with
  | [] =>
    have ha : a.toNat ≤ 127 := by simpa using hlength
    have hv : (Char.ofNat (codePoint a [])).val.toNat = a.toNat :=
      toNat_val_ofNat (.inl (by simp [codePoint]; omega))
    rw [String.utf8EncodeChar, hv, if_pos ha, UInt8.ofNat_toNat]
  | [b] =>
    have ha : 194 ≤ a.toNat ∧ a.toNat ≤ 223 := by simpa using hlength
    have hb := isSecondByte_iff.mp hfollow.1
    have hv : (Char.ofNat (codePoint a [b])).val.toNat =
        64 * (a.toNat - 192) + (b.toNat - 128) := toNat_val_ofNat (.inl (by simp [codePoint]; omega))
    rw [String.utf8EncodeChar, hv, if_neg (by omega), if_pos (by omega),
      ofNat_eq_of_eq_toNat (a := a) (by omega), ofNat_eq_of_eq_toNat (a := b) (by omega)]
  | [b, c] =>
    have ha : 224 ≤ a.toNat ∧ a.toNat ≤ 239 := by simpa using hlength
    have hb := isSecondByte_iff.mp hfollow.1
    have hc := isContinuation_iff.mp (hfollow.2 c (by simp))
    have hv : (Char.ofNat (codePoint a [b, c])).val.toNat =
        64 * (64 * (a.toNat - 224) + (b.toNat - 128)) + (c.toNat - 128) :=
      toNat_val_ofNat (by simp [codePoint, Nat.isValidChar]; omega)
    rw [String.utf8EncodeChar, hv, if_neg (by omega), if_neg (by omega), if_pos (by omega),
      ofNat_eq_of_eq_toNat (a := a) (by omega), ofNat_eq_of_eq_toNat (a := b) (by omega),
      ofNat_eq_of_eq_toNat (a := c) (by omega)]
  | [b, c, d] =>
    have ha : 240 ≤ a.toNat ∧ a.toNat ≤ 244 := by simpa using hlength
    have hb := isSecondByte_iff.mp hfollow.1
    have hc := isContinuation_iff.mp (hfollow.2 c (by simp))
    have hd := isContinuation_iff.mp (hfollow.2 d (by simp))
    have hv : (Char.ofNat (codePoint a [b, c, d])).val.toNat =
        64 * (64 * (64 * (a.toNat - 240) + (b.toNat - 128)) + (c.toNat - 128)) + (d.toNat - 128) :=
      toNat_val_ofNat (by simp [codePoint, Nat.isValidChar]; omega)
    rw [String.utf8EncodeChar, hv, if_neg (by omega), if_neg (by omega), if_neg (by omega),
      ofNat_eq_of_eq_toNat (a := a) (by omega), ofNat_eq_of_eq_toNat (a := b) (by omega),
      ofNat_eq_of_eq_toNat (a := c) (by omega), ofNat_eq_of_eq_toNat (a := d) (by omega)]
  | _ :: _ :: _ :: _ :: _ => simp at hlength

/-- Every character is encoded as a sequence. -/
theorem exists_isSequence (c : Char) :
    ∃ a more, String.utf8EncodeChar c = a :: more ∧ IsSequence a more ∧
      Char.ofNat (codePoint a more) = c := by
  have hvalid := c.valid
  have hof {n : Nat} (h : n = c.val.toNat) : Char.ofNat n = c := by
    rw [h]
    exact c.ofNat_toNat
  simp only [UInt32.isValidChar, Nat.isValidChar] at hvalid
  rw [String.utf8EncodeChar]
  -- The cases are the four lengths; what bounds the code point there bounds each byte.
  generalize c.val.toNat = v at *
  split_ifs with h1 h2 h3
  · refine ⟨_, _, rfl, ⟨?_, trivial⟩, hof ?_⟩
    · simp [sequenceLength?_eq_some_iff]
      omega
    · simp [codePoint]
      omega
  · refine ⟨_, _, rfl, ⟨?_, ?_, by simp⟩, hof ?_⟩
    · simp [sequenceLength?_eq_some_iff]
      omega
    · simp [isSecondByte_iff]
      omega
    · simp [codePoint]
      omega
  · refine ⟨_, _, rfl, ⟨?_, ?_, ?_⟩, hof ?_⟩
    · simp [sequenceLength?_eq_some_iff]
      omega
    · simp [isSecondByte_iff]
      omega
    · simp [isContinuation_iff]
      omega
    · simp [codePoint]
      omega
  · refine ⟨_, _, rfl, ⟨?_, ?_, ?_⟩, hof ?_⟩
    · simp [sequenceLength?_eq_some_iff]
      omega
    · simp [isSecondByte_iff]
      omega
    · simp [isContinuation_iff]
      omega
    · simp [codePoint]
      omega

end Bytes

/-! ## Decoding -/

theorem followers_eq_iff {a : UInt8} {need : Nat} {rest : Bytes} :
    followers a need rest = need ↔ (rest.take need).length = need ∧ Follow a (rest.take need) := by
  have hle : (rest.take need).length ≤ need := List.length_take_le need rest
  rw [followers]
  cases htake : rest.take need with
  | nil => simp [Follow]
  | cons b more =>
    rw [htake, List.length_cons] at hle
    have htaken : more.takeWhile isContinuation <+: more := List.takeWhile_prefix _
    have hall : (more.takeWhile isContinuation).length = more.length ↔
        ∀ c ∈ more, isContinuation c = true := by
      rw [← List.takeWhile_eq_self_iff]
      exact ⟨htaken.eq_of_length, congrArg List.length⟩
    have hshort := htaken.length_le
    by_cases hb : isSecondByte a b = true
    · simp only [Follow, hb, if_true, ← hall, List.length_cons, true_and]
      omega
    · simp only [if_neg hb]
      exact iff_of_false (by omega) fun h ↦ hb h.2.1

theorem decodeFrom_append (position : Nat) (more rest : Bytes) :
    decodeFrom position more.length (more ++ rest) =
      decodeFrom (position + more.length) 0 rest := by
  induction more generalizing position with
  | nil => rfl
  | cons b more ih =>
    rw [List.cons_append, List.length_cons, decodeFrom, ih]
    congr 1
    omega

theorem decodeFrom_sequence {a : UInt8} {more : Bytes} (h : IsSequence a more) (position : Nat)
    (left : Bytes) :
    decodeFrom position 0 (a :: (more ++ left)) =
      (decodeFrom (position + 1 + more.length) 0 left).map (Char.ofNat (codePoint a more) :: ·) := by
  have hfollowers : followers a more.length (more ++ left) = more.length := by
    rw [followers_eq_iff, List.take_left]
    exact ⟨rfl, h.follow⟩
  rw [decodeFrom, h.announced]
  simp only [Nat.add_sub_cancel, hfollowers, beq_self_eq_true, if_true, List.take_left,
    decodeFrom_append]
  cases decodeFrom (position + 1 + more.length) 0 left <;> rfl

/-- Where decoding goes on, it has read a sequence. -/
theorem exists_of_decodeFrom_eq_ok {position : Nat} {a : UInt8} {rest : Bytes} {t : Text}
    (h : decodeFrom position 0 (a :: rest) = .ok t) :
    ∃ more left, rest = more ++ left ∧ IsSequence a more := by
  cases hlength : sequenceLength? a with
  | none => simp [decodeFrom, hlength] at h
  | some n =>
    have hn : n = n - 1 + 1 := by
      rw [sequenceLength?_eq_some_iff] at hlength
      omega
    by_cases hfollowers : followers a (n - 1) rest = n - 1
    · obtain ⟨htake, hfollow⟩ := followers_eq_iff.mp hfollowers
      refine ⟨_, _, (List.take_append_drop (n - 1) rest).symm, ?_, hfollow⟩
      rw [htake, ← hn, hlength]
    · simp only [decodeFrom, hlength, beq_iff_eq, hfollowers, if_false] at h
      split at h <;> cases h

theorem decodeFrom_encode (position : Nat) (t : Text) : decodeFrom position 0 (encode t) = .ok t := by
  induction t generalizing position with
  | nil =>
    rw [encode_nil]
    rfl
  | cons c t ih =>
    obtain ⟨a, more, hc, hsequence, hcode⟩ := exists_isSequence c
    rw [encode_cons, hc, List.cons_append, decodeFrom_sequence hsequence, ih, hcode]
    rfl

/-- The induction is on the text, as each character takes away a whole sequence of bytes. -/
theorem encode_of_decodeFrom {position : Nat} {bs : Bytes} {t : Text}
    (h : decodeFrom position 0 bs = .ok t) : encode t = bs := by
  induction t generalizing position bs with
  | nil =>
    cases bs with
    | nil => exact encode_nil
    | cons a rest =>
      obtain ⟨more, left, rfl, hsequence⟩ := exists_of_decodeFrom_eq_ok h
      rw [decodeFrom_sequence hsequence] at h
      obtain ⟨_, -, hnil⟩ := Except.map_eq_ok_iff.mp h
      cases hnil
  | cons c t ih =>
    cases bs with
    | nil => cases h
    | cons a rest =>
      obtain ⟨more, left, rfl, hsequence⟩ := exists_of_decodeFrom_eq_ok h
      rw [decodeFrom_sequence hsequence] at h
      obtain ⟨t', ht', heq⟩ := Except.map_eq_ok_iff.mp h
      obtain ⟨rfl, rfl⟩ := List.cons.inj heq
      rw [encode_cons, utf8EncodeChar_codePoint hsequence, ih ht', List.cons_append]

/-- Bytes are decoded to a text if and only if they are its encoding. -/
theorem decode_eq_ok_iff {bs : Bytes} {t : Text} : decode bs = .ok t ↔ encode t = bs :=
  ⟨encode_of_decodeFrom, fun h ↦ h ▸ decodeFrom_encode 0 t⟩

theorem encode_ne_of_decode_eq_error {bs : Bytes} {e : DecodeFault} (h : decode bs = .error e)
    (t : Text) : encode t ≠ bs := by
  intro ht
  rw [decode_eq_ok_iff.mpr ht] at h
  cases h

end CodeHealth.Text
