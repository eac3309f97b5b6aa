import CodeHealth.Proofs.Text.Basic
import CodeHealth.Text.LowerCase
import Mathlib.Data.List.Infix

/-!
# ASCII in lower case

The lower-case form of a character hangs on its place only for a capital sigma, and both forms of
that lie beyond ASCII.  So what ASCII there is in the lower-case form of a text comes from its
characters one by one, and an ASCII word that occurs in the lower-case form of a part of a text
occurs in that of the whole, although the one form need not be a part of the other.
-/

namespace CodeHealth.Text

/-- All characters belong to ASCII. -/
def IsAscii (t : Text) : Prop :=
  ∀ c ∈ t, c.toNat < 0x80

instance (t : Text) : Decidable t.IsAscii :=
  List.decidableBAll (fun c : Char ↦ c.toNat < 0x80) t

/-- The character, if it belongs to ASCII. -/
def ascii? (c : Char) : Option Char :=
  if c.toNat < 0x80 then some c else none

theorem ascii?_eq_some_iff {c d : Char} : ascii? c = some d ↔ c.toNat < 0x80 ∧ c = d := by
  rw [ascii?, Option.ite_none_right_eq_some, Option.some.injEq]

theorem eq_of_map_some_eq {w t : Text} (h : w.map some = t.map ascii?) : w = t := by
  induction w generalizing t with
  | nil => exact (List.map_eq_nil_iff.mp h.symm).symm
  | cons c w ih =>
    obtain ⟨d, t, rfl, hd, ht⟩ := List.map_eq_cons_iff.mp h.symm
    rw [(ascii?_eq_some_iff.mp hd).2, ih ht.symm]

/-- An ASCII word occurs where it does among the ASCII characters in their places. -/
theorem IsAscii.infix_iff {w : Text} (hw : w.IsAscii) {t : Text} :
    w <:+: t ↔ w.map some <:+: t.map ascii? := by
  rw [List.infix_map_iff]
  constructor
  · intro h
    refine ⟨w, h, List.map_congr_left fun c hc ↦ ?_⟩
    exact (ascii?_eq_some_iff.mpr ⟨hw c hc, rfl⟩).symm
  · rintro ⟨part, hpart, heq⟩
    rwa [eq_of_map_some_eq heq]

theorem lowerChar_sigma : (lowerChar (Char.ofNat 0x3A3)).map ascii? = [none] := by
  decide +kernel

theorem map_ascii?_lowerAfter (before t : Text) :
    (lowerAfter before t).map ascii? = t.flatMap fun c ↦ (lowerChar c).map ascii? := by
  induction t generalizing before with
  | nil => rfl
  | cons c t ih =>
    rw [lowerAfter, List.map_append, ih, List.flatMap_cons]
    congr 1
    split
    · next hsigma =>
      -- A final sigma is beyond ASCII like the other.
      simp only [Bool.and_eq_true, decide_eq_true_eq] at hsigma
      rw [← c.ofNat_toNat, hsigma.1.1, lowerChar_sigma]
      rfl
    · rfl

/-- An ASCII word that occurs in the lower-case form of a part occurs in that of the whole. -/
theorem IsAscii.infix_lower_mono {w s t : Text} (hw : w.IsAscii) (hst : s <:+: t)
    (h : w <:+: s.lower) : w <:+: t.lower := by
  rw [hw.infix_iff, lower, map_ascii?_lowerAfter] at h ⊢
  exact h.trans (hst.flatMap _)

end CodeHealth.Text
