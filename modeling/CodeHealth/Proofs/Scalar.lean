import CodeHealth.Scalar
import Mathlib.Algebra.Group.Nat.Defs
import Mathlib.Data.Nat.Log
import Mathlib.Tactic.NthRewrite

/-!
# Floats that are numbers

Of two floats that are numbers, one is at most the other or the other is less; what is not a number
compares with nothing.  Counts below `2 ^ 53` are floats of full precision, so a quotient of them
is a number, and so is what it leaves of one.
-/

namespace CodeHealth.Scalar

open Float.Model (Format UnpackedFloat totalExponent)
open Float.Model.UnpackedFloat (Accuracy ExtendedMantissa Sign)

/-! ## Order -/

theorem unpacked_le_eq_not_lt {u v : UnpackedFloat} (hu : u.isNaN = false)
    (hv : v.isNaN = false) : u.le v = !v.lt u := by
  cases u with
  | notANumber => cases hu
  | infinity s =>
    cases v with
    | notANumber => cases hv
    | infinity s' => cases s <;> cases s' <;> rfl
    | zero => cases s <;> rfl
    | finite => cases s <;> rfl
  | zero s =>
    cases v with
    | notANumber => cases hv
    | infinity s' => cases s' <;> rfl
    | zero => rfl
    | finite s' => cases s' <;> rfl
  | finite s m e =>
    cases v with
    | notANumber => cases hv
    | infinity s' => cases s' <;> rfl
    | zero => cases s <;> rfl
    | finite s' m' e' =>
      have hswap : (compare e' e).then (compare m' m) =
          ((compare e e').then (compare m m')).swap := by
        rw [Ordering.swap_then, ← Std.OrientedOrd.eq_swap, ← Std.OrientedOrd.eq_swap]
      cases s with
      | negative =>
        cases s' with
        | negative =>
          show (some ((compare e e').then (compare m m')).swap).any (·.isLE) =
            !(some ((compare e' e).then (compare m' m)).swap == some .lt)
          rw [hswap]
          cases (compare e e').then (compare m m') <;> rfl
        | positive => rfl
      | positive =>
        cases s' with
        | negative => rfl
        | positive =>
          show (some ((compare e e').then (compare m m'))).any (·.isLE) =
            !(some ((compare e' e).then (compare m' m)) == some .lt)
          rw [hswap]
          cases (compare e e').then (compare m m') <;> rfl

theorem unpacked_le_of_isNaN (u : UnpackedFloat) {v : UnpackedFloat} (hv : v.isNaN = true) :
    u.le v = false := by
  cases v with
  | notANumber => cases u <;> rfl
  | _ => cases hv

theorem lt_eq_unpacked (x y : Float) : lt x y = x.toModel.unpack.lt y.toModel.unpack :=
  Bool.decide_eq_true.trans Bool.decide_eq_true

theorem le_eq_unpacked (x y : Float) : le x y = x.toModel.unpack.le y.toModel.unpack :=
  Bool.decide_eq_true.trans Bool.decide_eq_true

theorem le_eq_not_lt {x y : Float} (hx : x.isNaN = false) (hy : y.isNaN = false) :
    le x y = !lt y x := by
  rw [le_eq_unpacked, lt_eq_unpacked]
  exact unpacked_le_eq_not_lt hx hy

/-- Nothing is at most what is not a number. -/
theorem le_of_isNaN (x : Float) {y : Float} (hy : y.isNaN = true) : le x y = false := by
  rw [le_eq_unpacked]
  exact unpacked_le_of_isNaN _ hy

theorem isNaN_of_le {x y : Float} (h : le x y = true) : y.isNaN = false := by
  cases hy : y.isNaN with
  | false => rfl
  | true => exact absurd h (ne_true_of_eq_false (le_of_isNaN x hy))

theorem outsideUnit_eq_false {x : Float} (hzero : le (ofNat 0) x = true)
    (hone : le x (ofNat 1) = true) : outsideUnit x = false := by
  have hnumber : x.isNaN = false := isNaN_of_le hzero
  rw [le_eq_not_lt rfl hnumber, Bool.not_eq_true'] at hzero
  rw [le_eq_not_lt hnumber rfl, Bool.not_eq_true'] at hone
  rw [outsideUnit, hzero, hone, Bool.or_false]

/-- A float that is not outside the unit interval is at least zero, if it is a number. -/
theorem ofNat_zero_le {x : Float} (hx : outsideUnit x = false) : le (ofNat 0) x = !x.isNaN := by
  have hlt : lt x (ofNat 0) = false := (Bool.or_eq_false_iff.mp hx).1
  cases hnumber : x.isNaN with
  | false => rw [le_eq_not_lt rfl hnumber, hlt]
  | true => exact le_of_isNaN _ hnumber

/-! ## Rounding -/

theorem log2_div_two_pow (m k : Nat) : (m / 2 ^ k).log2 = m.log2 - k := by
  rw [Nat.log2_eq_log_two, Nat.log2_eq_log_two, Nat.log_div_base_pow]

theorem log2_mul_two_pow {m : Nat} (hm : m ≠ 0) (k : Nat) : (m * 2 ^ k).log2 = m.log2 + k := by
  have hle : 2 ^ (m.log2 + k) ≤ m * 2 ^ k := by
    rw [Nat.pow_add]
    exact Nat.mul_le_mul_right _ (Nat.log2_self_le hm)
  have hlt : m * 2 ^ k < 2 ^ (m.log2 + k + 1) := by
    rw [Nat.add_right_comm, Nat.pow_add]
    exact Nat.mul_lt_mul_of_pos_right Nat.lt_log2_self (Nat.two_pow_pos k)
  rw [Nat.log2_eq_iff (Nat.mul_ne_zero hm (Nat.two_pow_pos k).ne')]
  exact ⟨hle, hlt⟩

theorem mantissa_shiftRight (em : ExtendedMantissa) (k : Nat) :
    (em >>> k).mantissa = em.mantissa / 2 ^ k := by
  induction k with
  | zero => exact (Nat.div_one _).symm
  | succ k ih =>
    show (em >>> k).mantissa / 2 = _
    rw [ih, Nat.div_div_eq_div_mul, Nat.pow_succ]

theorem mantissa_ofMantissaAndAccuracy (m : Nat) (a : Accuracy) :
    (ExtendedMantissa.ofMantissaAndAccuracy m a).mantissa = m := by
  cases a with
  | exact => rfl
  | inexact o => cases o <;> rfl

theorem roundedMantissa_bounds (em : ExtendedMantissa) :
    em.mantissa ≤ em.roundedMantissa ∧ em.roundedMantissa ≤ em.mantissa + 1 := by
  obtain ⟨m, round, sticky⟩ := em
  cases round <;> cases sticky <;>
    simp only [ExtendedMantissa.roundedMantissa, ExtendedMantissa.accuracy,
      Accuracy.roundToNearestEven] <;> omega

theorem ne_zero_of_log2_eq {m : Nat} (h : m.log2 = 52) : m ≠ 0 := by
  rintro rfl
  cases h

/-- Rounding up can give one digit more. -/
theorem log2_roundedMantissa_bounds {em : ExtendedMantissa} (h : em.mantissa.log2 = 52) :
    52 ≤ em.roundedMantissa.log2 ∧ em.roundedMantissa.log2 ≤ 53 := by
  obtain ⟨hle, hlt⟩ := (Nat.log2_eq_iff (ne_zero_of_log2_eq h)).mp h
  obtain ⟨hdown, hup⟩ := roundedMantissa_bounds em
  have hne : em.roundedMantissa ≠ 0 := by omega
  constructor
  · exact (Nat.le_log2 hne).mpr (by omega)
  · exact Nat.le_of_lt_succ ((Nat.log2_lt hne).mpr (by omega))

theorem mantissaBits_binary64 : Format.binary64.mantissaBits = 53 := rfl

/-- Shifting a mantissa to its place leaves its first 53 digits. -/
theorem shiftToTargetExponent_spec {m : Nat} {e : Int} (hm : 52 ≤ m.log2)
    (he : -1074 ≤ e + m.log2 - 52) (a : Accuracy) :
    (UnpackedFloat.shiftToTargetExponent Format.binary64 m e a).1.mantissa =
      m / 2 ^ (m.log2 - 52) ∧
    (UnpackedFloat.shiftToTargetExponent Format.binary64 m e a).2 = e + m.log2 - 52 := by
  have htarget : Format.binary64.targetExponent (totalExponent m e) - e = (m.log2 - 52 : Nat) := by
    simp only [Format.targetExponent, totalExponent, mantissaBits_binary64, Format.minExponent]
    omega
  rw [UnpackedFloat.shiftToTargetExponent, UnpackedFloat.shiftToExponent, htarget,
    Int.toNat_natCast]
  constructor
  · rw [mantissa_shiftRight, mantissa_ofMantissaAndAccuracy]
  · show e + ((m.log2 - 52 : Nat) : Int) = e + m.log2 - 52
    omega

/-- A finite float with the exponent `e` that uses all 53 digits. -/
def IsNormal (e : Int) (u : UnpackedFloat) : Prop :=
  ∃ s m hpos, u = .finite s m e hpos ∧ m.log2 = 52

theorem isNormal_roundWithAccuracy {m : Nat} {e : Int} (hm : 52 ≤ m.log2)
    (he : -1074 ≤ e + m.log2 - 52) (s : Sign) (a : Accuracy) :
    ∃ e', IsNormal e' (UnpackedFloat.roundWithAccuracy Format.binary64 s m e a) ∧
      e + m.log2 - 52 ≤ e' ∧ e' ≤ e + m.log2 - 51 := by
  obtain ⟨hmantissa, hexponent⟩ := shiftToTargetExponent_spec hm he a
  rw [UnpackedFloat.roundWithAccuracy]
  generalize UnpackedFloat.shiftToTargetExponent Format.binary64 m e a = first at *
  obtain ⟨em, e₁⟩ := first
  dsimp only at hmantissa hexponent ⊢
  have hlog : em.mantissa.log2 = 52 := by
    rw [hmantissa, log2_div_two_pow]
    omega
  -- The second shift drops the digit that rounding up can give.
  have hdigits := log2_roundedMantissa_bounds hlog
  have hlow : -1074 ≤ e₁ + em.roundedMantissa.log2 - 52 := by omega
  obtain ⟨hmantissa', hexponent'⟩ := shiftToTargetExponent_spec hdigits.1 hlow .exact
  generalize UnpackedFloat.shiftToTargetExponent Format.binary64 em.roundedMantissa e₁ .exact =
    second at *
  obtain ⟨em', e'⟩ := second
  dsimp only at hmantissa' hexponent' ⊢
  have hlog' : em'.mantissa.log2 = 52 := by
    rw [hmantissa', log2_div_two_pow]
    omega
  rw [dif_neg (ne_zero_of_log2_eq hlog')]
  exact ⟨e', ⟨_, _, _, rfl, hlog'⟩, by omega, by omega⟩

/-! ## Packing -/

theorem isNaN_unpack {b : BitVec Format.binary64.numBits}
    (h : UnpackedFloat.unpackExponent b ≠ -1#11) :
    (UnpackedFloat.unpack Format.binary64 b).isNaN = false := by
  unfold UnpackedFloat.unpack
  dsimp only
  rw [if_neg h]
  by_cases hexponent : UnpackedFloat.unpackExponent b = 0#11
  · rw [if_pos hexponent]
    by_cases hmantissa : UnpackedFloat.unpackMantissa b = 0#52
    · rw [dif_pos hmantissa]
      rfl
    · rw [dif_neg hmantissa]
      rfl
  · rw [if_neg hexponent]
    rfl

theorem isNormal_unpack {b : BitVec Format.binary64.numBits}
    (h : UnpackedFloat.unpackExponent b ≠ -1#11) (hne : UnpackedFloat.unpackExponent b ≠ 0#11) :
    IsNormal ((UnpackedFloat.unpackExponent b).toNat - 1075)
      (UnpackedFloat.unpack Format.binary64 b) := by
  unfold UnpackedFloat.unpack
  dsimp only
  rw [if_neg h, if_neg hne]
  refine ⟨_, _, _, rfl, ?_⟩
  generalize UnpackedFloat.unpackMantissa b = mantissa
  have hlt : mantissa.toNat < 2 ^ 52 := mantissa.isLt
  have hsum : (1#1 ++ mantissa).toNat = 2 ^ 52 + mantissa.toNat := by
    rw [BitVec.toNat_append, ← Nat.shiftLeft_add_eq_or_of_lt hlt]
    rfl
  rw [hsum, Nat.log2_eq_iff (by omega)]
  constructor <;> omega

theorem isNaN_unpack_packComponents (s : Sign) {exponent : BitVec 11} (h : exponent ≠ -1#11)
    (mantissa : BitVec 52) :
    (UnpackedFloat.unpack Format.binary64
      (UnpackedFloat.packComponents Format.binary64 s exponent mantissa)).isNaN = false := by
  apply isNaN_unpack
  rwa [UnpackedFloat.unpackExponent_packComponents]

theorem isNormal_unpack_packComponents (s : Sign) {exponent : BitVec 11} (h : exponent ≠ -1#11)
    (hne : exponent ≠ 0#11) (mantissa : BitVec 52) :
    IsNormal (exponent.toNat - 1075) (UnpackedFloat.unpack Format.binary64
      (UnpackedFloat.packComponents Format.binary64 s exponent mantissa)) := by
  have hexponent : UnpackedFloat.unpackExponent
      (UnpackedFloat.packComponents Format.binary64 s exponent mantissa) = exponent :=
    UnpackedFloat.unpackExponent_packComponents
  have hnormal := isNormal_unpack (hexponent.trans_ne h) (hexponent.trans_ne hne)
  rwa [hexponent] at hnormal

theorem toNat_ofNat_exponent {b : Nat} (h : b + 1 < 2 ^ 11) : (BitVec.ofNat 11 b).toNat = b := by
  rw [BitVec.toNat_ofNat, Nat.mod_eq_of_lt (by omega)]

theorem ofNat_exponent_ne {b : Nat} (h : b + 1 < 2 ^ 11) : BitVec.ofNat 11 b ≠ -1#11 := by
  intro hones
  have hb := toNat_ofNat_exponent h
  rw [hones] at hb
  have hmax : (-1#11).toNat = 2047 := by decide
  omega

/-- Packing makes no number of what is none, and the other way round. -/
theorem isNaN_unpack_pack (u : UnpackedFloat) : (Float.Model.pack u).unpack.isNaN = u.isNaN := by
  show (UnpackedFloat.unpack Format.binary64 (UnpackedFloat.pack Format.binary64 u)).isNaN = _
  cases u with
  | notANumber => rfl
  | infinity s => cases s <;> rfl
  | zero s => cases s <;> rfl
  | finite s m e hpos =>
    change _ = false
    unfold UnpackedFloat.pack
    dsimp only
    split
    · cases s <;> rfl
    · next hfits =>
      split
      · exact isNaN_unpack_packComponents s (ofNat_exponent_ne (Nat.lt_of_not_ge hfits)) _
      · exact isNaN_unpack_packComponents s (by decide) _

theorem IsNormal.unpack_pack {u : UnpackedFloat} {e : Int} (h : IsNormal e u) (hlow : -1074 ≤ e)
    (hhigh : e ≤ 970) : IsNormal e (Float.Model.pack u).unpack := by
  obtain ⟨s, m, hpos, rfl, hlog⟩ := h
  have hbias : e + Format.binary64.exponentBias + Format.binary64.mantissaBitsWithoutImplicit =
      e + 1075 := by
    show e + (1023 : Nat) + (52 : Nat) = e + 1075
    omega
  have hfits : (e + 1075).toNat + 1 < 2 ^ 11 := by omega
  have hpacked : UnpackedFloat.pack Format.binary64 (.finite s m e hpos) =
      UnpackedFloat.packComponents Format.binary64 s (BitVec.ofNat 11 (e + 1075).toNat)
        (BitVec.ofNat 52 m) := by
    unfold UnpackedFloat.pack
    dsimp only
    rw [hbias, if_neg (Nat.not_le_of_lt hfits), if_pos (by rw [hlog]; rfl)]
  show IsNormal e (UnpackedFloat.unpack Format.binary64 (UnpackedFloat.pack Format.binary64 _))
  have hne : BitVec.ofNat 11 (e + 1075).toNat ≠ 0#11 := by
    intro hzero
    have hb := toNat_ofNat_exponent hfits
    rw [hzero, BitVec.toNat_zero] at hb
    omega
  have hnormal := isNormal_unpack_packComponents s (ofNat_exponent_ne hfits) hne (BitVec.ofNat 52 m)
  have he : ((e + 1075).toNat : Int) - 1075 = e := by omega
  rwa [toNat_ofNat_exponent hfits, he, ← hpacked] at hnormal

/-! ## Counts -/

theorem isNormal_normalize {n : Nat} (hpos : 0 < n) (hn : n < 2 ^ 53) :
    ∃ e, IsNormal e (UnpackedFloat.normalize Format.binary64 n 0 .positive) ∧
      -52 ≤ e ∧ e ≤ 1 := by
  have hlog : n.log2 < 53 := (Nat.log2_lt hpos.ne').mpr hn
  have htarget : Format.binary64.targetExponent (totalExponent n 0) = n.log2 - 52 := by
    simp only [Format.targetExponent, totalExponent, mantissaBits_binary64, Format.minExponent]
    omega
  have hshift : ((0 : Int) - (n.log2 - 52)).toNat = 52 - n.log2 := by omega
  have hround : UnpackedFloat.normalize Format.binary64 n 0 .positive =
      UnpackedFloat.roundWithAccuracy Format.binary64 .positive (n <<< (52 - n.log2))
        (0 - (52 - n.log2 : Nat)) .exact := by
    rw [UnpackedFloat.normalize, Int.compare_eq_gt.mpr (Int.natCast_pos.mpr hpos)]
    dsimp only
    rw [UnpackedFloat.round, Int.toNat_natCast, htarget, UnpackedFloat.decreaseExponent, hshift]
  have hdigits : (n <<< (52 - n.log2)).log2 = 52 := by
    rw [Nat.shiftLeft_eq, log2_mul_two_pow hpos.ne']
    omega
  have hlow : -1074 ≤ 0 - ((52 - n.log2 : Nat) : Int) + (n <<< (52 - n.log2)).log2 - 52 := by omega
  obtain ⟨e, hnormal, hle, hge⟩ := isNormal_roundWithAccuracy hdigits.ge hlow .positive .exact
  rw [hround]
  exact ⟨e, hnormal, by omega, by omega⟩

theorem unpack_ofNat {n : Nat} (hn : n < 2 ^ 53) :
    (ofNat n : Float).toModel.unpack = (Float.Model.pack (UnpackedFloat.mul Format.binary64
      (Float.Model.pack (UnpackedFloat.normalize Format.binary64 n 0 .positive)).unpack
      (.finite .positive (2 ^ 52) (-52) (by decide)))).unpack := by
  have hcount : n.toUInt64.toNat = n := Nat.mod_eq_of_lt (by omega)
  have hproduct : (ofNat n : Float) = n.toUInt64.toFloat * Float.ofBits 0x3FF0000000000000 := by
    show Float.ofScientific n false 0 = _
    rw [Float.ofScientific, dif_pos ⟨hn, by decide⟩]
    rfl
  rw [hproduct]
  nth_rewrite 2 [← hcount]
  rfl

theorem isNormal_ofNat {n : Nat} (hpos : 0 < n) (hn : n < 2 ^ 53) :
    ∃ e, IsNormal e (ofNat n : Float).toModel.unpack := by
  obtain ⟨e, hnormal, hle, hge⟩ := isNormal_normalize hpos hn
  obtain ⟨s, m, hmpos, hunpack, hlog⟩ := hnormal.unpack_pack (by omega) (by omega)
  have hdigits : (m * 2 ^ 52).log2 = 104 := by
    rw [log2_mul_two_pow hmpos.ne', hlog]
  have hlow : -1074 ≤ e + -52 + (m * 2 ^ 52).log2 - 52 := by omega
  obtain ⟨e', hnormal', hle', hge'⟩ :=
    isNormal_roundWithAccuracy (by omega) hlow (s * .positive) .exact
  rw [unpack_ofNat hn, hunpack]
  exact ⟨e', hnormal'.unpack_pack (by omega) (by omega)⟩

/-! ## Quotients of counts -/

theorem isNaN_roundWithAccuracy (s : Sign) (m : Nat) (e : Int) (a : Accuracy) :
    (UnpackedFloat.roundWithAccuracy Format.binary64 s m e a).isNaN = false := by
  rw [UnpackedFloat.roundWithAccuracy]
  dsimp only
  exact (apply_dite UnpackedFloat.isNaN _ _ _).trans (ite_self false)

theorem isNaN_normalize (n e : Int) (s : Sign) :
    (UnpackedFloat.normalize Format.binary64 n e s).isNaN = false := by
  rw [UnpackedFloat.normalize]
  split
  · exact isNaN_roundWithAccuracy _ _ _ _
  · rfl
  · exact isNaN_roundWithAccuracy _ _ _ _

theorem isNaN_div {u v : UnpackedFloat} {e : Int} (hu : u.isNaN = false) (hv : IsNormal e v) :
    (UnpackedFloat.div Format.binary64 u v).isNaN = false := by
  obtain ⟨s, m, hpos, rfl, -⟩ := hv
  cases u with
  | notANumber => cases hu
  | infinity s' => rfl
  | zero s' => rfl
  | finite s' m' e' => exact isNaN_roundWithAccuracy _ _ _ _

theorem isNaN_sub {u v : UnpackedFloat} {e : Int} (hu : IsNormal e u) (hv : v.isNaN = false) :
    (UnpackedFloat.sub Format.binary64 u v).isNaN = false := by
  obtain ⟨s, m, hpos, rfl, -⟩ := hu
  cases v with
  | notANumber => cases hv
  | infinity s' => rfl
  | zero s' => rfl
  | finite s' m' e' => exact isNaN_normalize _ _ _

theorem isNaN_ofNat {n : Nat} (hn : n < 2 ^ 53) : (ofNat n : Float).isNaN = false := by
  rcases Nat.eq_zero_or_pos n with rfl | hpos
  · rfl
  · obtain ⟨e, s, m, hm, hunpack, -⟩ := isNormal_ofNat hpos hn
    show (ofNat n : Float).toModel.unpack.isNaN = false
    rw [hunpack]
    rfl

/-- What a share of a whole leaves of one is a number. -/
theorem isNaN_one_sub_div {d m : Nat} (hd : d ≤ m) (hpos : 0 < m) (hm : m < 2 ^ 53) :
    (sub (ofNat 1) (div (ofNat d) (ofNat m)) : Float).isNaN = false := by
  obtain ⟨e, hwhole⟩ := isNormal_ofNat hpos hm
  obtain ⟨e', hone⟩ := isNormal_ofNat (n := 1) (by decide) (by decide)
  have hquotient : (div (ofNat d) (ofNat m) : Float).toModel.unpack.isNaN = false :=
    (isNaN_unpack_pack _).trans (isNaN_div (isNaN_ofNat (Nat.lt_of_le_of_lt hd hm)) hwhole)
  exact (isNaN_unpack_pack _).trans (isNaN_sub hone hquotient)

end CodeHealth.Scalar
