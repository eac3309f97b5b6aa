import CodeHealth.Proofs.Report.Json.Reader
import Mathlib.Data.Nat.Digits.Defs

/-!
# Strings and numbers read back

Every character is read as its units of UTF-16, in whichever way it is written, and the units of a
text are joined to this text again.  The digits of a number read back as the number, provided that
no digit follows.
-/

namespace CodeHealth.Report.Json

/-! ## Hexadecimal numbers -/

theorem hexDigit?_digitChar : ∀ d < 16, hexDigit? d.digitChar = some d := by
  decide

theorem ofHex?_append_singleton (ds : Text) (d : Char) :
    ofHex? (ds ++ [d]) = (ofHex? ds).bind fun n ↦ (hexDigit? d).map (16 * n + ·) := by
  rw [ofHex?, List.foldlM_append]
  simp [ofHex?]

theorem ofHex?_toDigits (n : Nat) : ofHex? (Nat.toDigits 16 n) = some n := by
  induction n using Nat.strong_induction_on with
  | _ n ih =>
    rw [Nat.toDigits_eq_if (by decide)]
    split
    · next hlt => simp [ofHex?, hexDigit?_digitChar n hlt]
    · next hle =>
      have hmod : n % 16 < 16 := Nat.mod_lt n (by decide)
      rw [ofHex?_append_singleton, ih (n / 16) (by omega), Option.bind_some,
        hexDigit?_digitChar _ hmod, Option.map_some, Nat.div_add_mod]

theorem ofHex?_replicate_append (k : Nat) (ds : Text) :
    ofHex? (List.replicate k '0' ++ ds) = ofHex? ds := by
  induction k with
  | zero => rfl
  | succ k ih => rw [← ih, List.replicate_succ, List.cons_append, ofHex?, List.foldlM_cons]; rfl

theorem ofHex?_hex (width n : Nat) : ofHex? (Text.hex width n) = some n := by
  rw [Text.hex, ofHex?_replicate_append, ofHex?_toDigits]

theorem length_hex {width n : Nat} (hwidth : 0 < width) (hn : n < 16 ^ width) :
    (Text.hex width n).length = width := by
  have hle := (Nat.length_toDigits_le_iff (by decide) hwidth).mpr hn
  rw [Text.hex, List.length_append, List.length_replicate]
  omega

/-! ## Characters -/

/-- The units of UTF-16 by which a character is escaped. -/
def units (c : Char) : List Nat :=
  if c.toNat < 0x10000 then [c.toNat]
  else [0xD800 + (c.toNat - 0x10000) / 0x400, 0xDC00 + (c.toNat - 0x10000) % 0x400]

theorem readUnits_unitEscape {n : Nat} (hn : n < 0x10000) (rest : Text) :
    readUnits (unitEscape n ++ rest) = (readUnits rest).map (Prod.map (n :: ·) id) := by
  have hlength : (Text.hex 4 n).length = 4 := length_hex (by decide) hn
  have hvalue := ofHex?_hex 4 n
  rw [unitEscape]
  match hhex : Text.hex 4 n, hlength with
  | [a, b, c, d], _ =>
    rw [hhex] at hvalue
    simp only [List.cons_append, List.nil_append, readUnits, hvalue, Option.bind_some]

theorem readUnits_cons {c : Char} (hquote : c ≠ '"') (hslash : c ≠ '\\') (hc : 0x20 ≤ c.toNat)
    (rest : Text) :
    readUnits (c :: rest) = (readUnits rest).map (Prod.map (c.toNat :: ·) id) := by
  rw [readUnits.eq_5 c rest hquote (fun _ _ _ _ _ h ↦ absurd h hslash)
    (fun _ _ h ↦ absurd h hslash), if_neg (by simp [hslash, hc])]

theorem readUnits_escaped {c e : Char} (h : escaped? c = some e) (rest : Text) :
    readUnits ('\\' :: c :: rest) = (readUnits rest).map (Prod.map (e.toNat :: ·) id) := by
  have hu : c ≠ 'u' := by
    rintro rfl
    cases h
  rw [readUnits.eq_4 c rest (fun _ _ _ _ _ hc ↦ absurd hc hu), h, Option.bind_some]

/-- A character is read as the units by which it is escaped, whether it is or not. -/
theorem readUnits_jsonChar (c : Char) (rest : Text) :
    readUnits (jsonChar c ++ rest) = (readUnits rest).map (Prod.map (units c ++ ·) id) := by
  have hone (h : c.toNat < 0x10000) : units c = [c.toNat] := if_pos h
  have hletter {d e : Char} (hd : escaped? d = some e) (hc : c = e) (hsmall : e.toNat < 0x10000) :
      readUnits (['\\', d] ++ rest) = (readUnits rest).map (Prod.map (units c ++ ·) id) := by
    subst hc
    rw [hone hsmall]
    exact readUnits_escaped hd rest
  rw [jsonChar]
  split_ifs with hquote hn hr ht hb hf hplain hbasic
  · rcases Bool.or_eq_true_iff.mp hquote with h | h
    · rw [eq_of_beq h]
      exact readUnits_escaped rfl rest
    · rw [eq_of_beq h]
      exact readUnits_escaped rfl rest
  · exact hletter rfl (eq_of_beq hn) (by decide)
  · exact hletter rfl (eq_of_beq hr) (by decide)
  · exact hletter rfl (eq_of_beq ht) (by decide)
  · exact hletter rfl (Char.toNat_inj.mp (eq_of_beq hb)) (by decide)
  · exact hletter rfl (Char.toNat_inj.mp (eq_of_beq hf)) (by decide)
  · simp only [Bool.or_eq_true, beq_iff_eq, not_or, Bool.and_eq_true, decide_eq_true_eq]
      at hquote hplain
    rw [hone (by omega)]
    exact readUnits_cons hquote.1 hquote.2 hplain.1 rest
  · rw [hone hbasic]
    exact readUnits_unitEscape hbasic rest
  · have hvalid : c.toNat < 0xD800 ∨ 0xDFFF < c.toNat ∧ c.toNat < 0x110000 := c.valid
    rw [List.append_assoc, readUnits_unitEscape (by omega), readUnits_unitEscape (by omega),
      Option.map_map, units, if_neg hbasic]
    rfl

theorem joinUnits_units (c : Char) (ns : List Nat) :
    joinUnits (units c ++ ns) = (joinUnits ns).map (c :: ·) := by
  have hvalid : c.toNat < 0xD800 ∨ 0xDFFF < c.toNat ∧ c.toNat < 0x110000 := c.valid
  rw [units]
  split
  · rw [List.singleton_append, joinUnits.eq_def]
    simp only
    rw [if_neg (by omega), if_neg (by omega), Char.ofNat_toNat]
  · next hbeyond =>
    have hcode : 0x10000 + 0x400 * (0xD800 + (c.toNat - 0x10000) / 0x400 - 0xD800) +
        (0xDC00 + (c.toNat - 0x10000) % 0x400 - 0xDC00) = c.toNat := by
      omega
    rw [List.cons_append, List.singleton_append, joinUnits, if_pos (by omega), if_pos (by omega),
      hcode, Char.ofNat_toNat]

theorem readUnits_flatMap (t rest : Text) :
    readUnits (t.flatMap jsonChar ++ '"' :: rest) = some (t.flatMap units, rest) := by
  induction t with
  | nil => rfl
  | cons c t ih =>
    rw [List.flatMap_cons, List.append_assoc, readUnits_jsonChar, ih, List.flatMap_cons]
    rfl

theorem joinUnits_flatMap (t : Text) : joinUnits (t.flatMap units) = some t := by
  induction t with
  | nil => rfl
  | cons c t ih => rw [List.flatMap_cons, joinUnits_units, ih, Option.map_some]

/-! ## Whole numbers -/

/-- What follows does not go on with a digit. -/
def NoDigit (rest : Text) : Prop :=
  ∀ c ∈ rest.head?, c.isDigit = false

theorem head?_toDigits_ne_zero {n : Nat} (hn : 0 < n) : (Nat.toDigits 10 n).head? ≠ some '0' := by
  induction n using Nat.strong_induction_on with
  | _ n ih =>
    rw [Nat.toDigits_eq_if (by decide)]
    split
    · next hlt =>
      have hdigits : ∀ d < 10, 0 < d → [Nat.digitChar d].head? ≠ some '0' := by decide
      exact hdigits n hlt hn
    · next hle =>
      rw [List.head?_append, Option.or_of_isSome (List.isSome_head?.mpr Nat.toDigits_ne_nil)]
      exact ih (n / 10) (by omega) (by omega)

theorem readNat?_toDigits (n : Nat) {rest : Text} (h : NoDigit rest) :
    readNat? (Nat.toDigits 10 n ++ rest) = some (n, rest) := by
  have hdigits (c : Char) (hc : c ∈ Nat.toDigits 10 n) : c.isDigit = true :=
    Nat.isDigit_of_mem_toDigits (by decide) (by decide) hc
  have hrest : rest.takeWhile Char.isDigit = [] ∧ rest.dropWhile Char.isDigit = rest := by
    cases rest with
    | nil => exact ⟨rfl, rfl⟩
    | cons c rest =>
      have hc := h c rfl
      exact ⟨List.takeWhile_cons_of_neg (by simp [hc]), List.dropWhile_cons_of_neg (by simp [hc])⟩
  rw [readNat?, List.takeWhile_append_of_pos hdigits, List.dropWhile_append_of_pos hdigits, hrest.1,
    hrest.2, List.append_nil]
  split
  · next hnil => exact absurd hnil Nat.toDigits_ne_nil
  · next d ds hzero =>
    have hn : n = 0 := by
      by_contra hne
      refine head?_toDigits_ne_zero (Nat.pos_of_ne_zero hne) ?_
      rw [hzero, List.head?_cons]
    rw [hn, Nat.toDigits_zero] at hzero
    cases hzero
  · rw [Nat.ofDigitChars_ten_toDigits]

theorem toString_ofNat (n : Nat) : (toString (Int.ofNat n)).toList = Nat.toDigits 10 n :=
  String.toList_ofList

theorem toString_negSucc (n : Nat) :
    (toString (Int.negSucc n)).toList = '-' :: Nat.toDigits 10 (n + 1) := by
  have hsplit : (toString (Int.negSucc n)).toList =
      ['-'] ++ (String.ofList (Nat.toDigits 10 (n + 1))).toList := String.toList_append
  rw [hsplit, String.toList_ofList, List.singleton_append]

theorem toString_ne_nil (n : Int) : (toString n).toList ≠ [] := by
  cases n with
  | ofNat n =>
    rw [toString_ofNat]
    exact Nat.toDigits_ne_nil
  | negSucc n =>
    rw [toString_negSucc]
    exact List.cons_ne_nil _ _

theorem isDigit_or_eq_of_mem_toString {n : Int} {c : Char} (hc : c ∈ (toString n).toList) :
    c.isDigit = true ∨ c = '-' := by
  cases n with
  | ofNat n =>
    rw [toString_ofNat] at hc
    exact .inl (Nat.isDigit_of_mem_toDigits (by decide) (by decide) hc)
  | negSucc n =>
    rw [toString_negSucc] at hc
    rcases List.mem_cons.mp hc with hc | hc
    · exact .inr hc
    · exact .inl (Nat.isDigit_of_mem_toDigits (by decide) (by decide) hc)

theorem readInt?_toString (n : Int) {rest : Text} (h : NoDigit rest) :
    readInt? ((toString n).toList ++ rest) = some (n, rest) := by
  cases n with
  | ofNat n =>
    have hminus (t : Text) : Nat.toDigits 10 n ++ rest ≠ '-' :: t := by
      obtain ⟨d, ds, hd⟩ := List.exists_cons_of_ne_nil (Nat.toDigits_ne_nil (b := 10) (n := n))
      intro heq
      rw [hd, List.cons_append] at heq
      have hmem : '-' ∈ Nat.toDigits 10 n := by
        rw [hd, (List.cons.inj heq).1]
        exact List.mem_cons_self
      exact absurd (Nat.isDigit_of_mem_toDigits (by decide) (by decide) hmem) (by decide)
    rw [toString_ofNat, readInt?.eq_2 _ hminus, readNat?_toDigits n h]
    rfl
  | negSucc n =>
    rw [toString_negSucc, List.cons_append, readInt?, readNat?_toDigits (n + 1) h]
    rfl

end CodeHealth.Report.Json
