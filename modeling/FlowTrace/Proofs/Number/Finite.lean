import FlowTrace.Number.Scaled
import Mathlib

/-!
# Doubles that stay finite

A double is infinite only if its exponent is beyond the largest one.  This file bounds exponents
through rounding, packing and division, as far as the reading of numerals needs it:

* `exponentAtMost_round` and `full_round` — rounding changes the exponent of a number by little;
* `exponentAtMost_pack` — below the largest exponent a number is packed as a finite double;
* `isFinite_ofInt` — whole numbers of 64 bits are finite;
* `isAtLeastEight_powerOfTen` — dividing by a power of ten makes numbers smaller;
* `isFinite_scaled?` — what scaling gives for a decimal of 64 bits is finite.
-/

namespace FlowTrace

namespace Number

open Float.Model Float.Model.UnpackedFloat

/-- The largest exponent of a finite double, for a mantissa of 53 bits. -/
def topExponent : Int := 971

/-- A number that is zero, or whose exponent does not exceed a bound. -/
def ExponentAtMost (bound : Int) : UnpackedFloat → Prop
  | .zero _ => True
  | .finite _ _ exponent _ => exponent ≤ bound
  | .infinity _ | .notANumber => False

theorem ExponentAtMost.mono {low high : Int} {u : UnpackedFloat} (h : ExponentAtMost low u)
    (hle : low ≤ high) : ExponentAtMost high u := by
  cases u with
  | zero => trivial
  | finite => exact Int.le_trans h hle
  | infinity => exact h
  | notANumber => exact h

/-! ## Rounding -/

theorem mantissa_shiftRight (em : ExtendedMantissa) (places : Nat) :
    (em >>> places).mantissa = em.mantissa / 2 ^ places := by
  induction places with
  | zero => exact (Nat.div_one em.mantissa).symm
  | succ places ih =>
      have hstep : (em >>> (places + 1)).mantissa = (em >>> places).mantissa / 2 := rfl
      rw [hstep, ih, Nat.div_div_eq_div_mul, Nat.pow_succ]

theorem mantissa_ofMantissaAndAccuracy (mantissa : Nat) :
    ∀ accuracy, (ExtendedMantissa.ofMantissaAndAccuracy mantissa accuracy).mantissa = mantissa
  | .exact => rfl
  | .inexact .lt => rfl
  | .inexact .eq => rfl
  | .inexact .gt => rfl

theorem roundToNearestEven_le (mantissa : Nat) :
    ∀ accuracy, Accuracy.roundToNearestEven mantissa accuracy ≤ mantissa + 1
  | .exact => Nat.le_succ mantissa
  | .inexact .lt => Nat.le_succ mantissa
  | .inexact .eq => by
      have hmod : mantissa % 2 < 2 := Nat.mod_lt mantissa (by decide)
      simp only [Accuracy.roundToNearestEven]
      omega
  | .inexact .gt => Nat.le_refl _

theorem log2_le_of_le {n bits : Nat} (hle : n ≤ 2 ^ bits) : n.log2 ≤ bits := by
  by_cases hzero : n = 0
  · simp [hzero]
  · have hlt : n < 2 ^ (bits + 1) :=
      Nat.lt_of_le_of_lt hle (Nat.pow_lt_pow_right (by decide) (Nat.lt_succ_self bits))
    exact Nat.le_of_lt_succ ((Nat.log2_lt hzero).2 hlt)

/-- What is left of a mantissa, rounded up, has at most one bit more than are left of it. -/
theorem log2_rounded_le {mantissa places rounded : Nat}
    (hrounded : rounded ≤ mantissa / 2 ^ places + 1) :
    rounded.log2 ≤ mantissa.log2 - places + 1 := by
  have hpow : mantissa < 2 ^ (mantissa.log2 - places + 1) * 2 ^ places := by
    rw [← Nat.pow_add]
    exact Nat.lt_of_lt_of_le Nat.lt_log2_self (Nat.pow_le_pow_right (by decide) (by omega))
  have hleft : mantissa / 2 ^ places < 2 ^ (mantissa.log2 - places + 1) :=
    (Nat.div_lt_iff_lt_mul (Nat.two_pow_pos places)).2 hpow
  exact log2_le_of_le (Nat.le_trans hrounded hleft)

/-- The exponent that a number has after it has been shifted for rounding. -/
theorem exponent_shifted (mantissa : Nat) (exponent : Int) (accuracy : Accuracy) :
    (shiftToTargetExponent .binary64 mantissa exponent accuracy).2 =
      max exponent (max (totalExponent mantissa exponent - 53) (-1074)) := by
  have htarget : Format.binary64.targetExponent (totalExponent mantissa exponent) =
      max (totalExponent mantissa exponent - 53) (-1074) := rfl
  simp only [shiftToTargetExponent, shiftToExponent, htarget]
  omega

/-- What rounding makes of a shifted mantissa. -/
theorem log2_roundedMantissa_shifted (mantissa : Nat) (exponent : Int) (accuracy : Accuracy) :
    ((shiftToTargetExponent .binary64 mantissa exponent accuracy).1.roundedMantissa.log2 : Int) ≤
      max 1 (totalExponent mantissa exponent -
        (shiftToTargetExponent .binary64 mantissa exponent accuracy).2) := by
  simp only [shiftToTargetExponent, shiftToExponent, totalExponent]
  generalize (Format.binary64.targetExponent _ - exponent).toNat = places
  generalize hshifted :
    ExtendedMantissa.ofMantissaAndAccuracy mantissa accuracy >>> places = shifted
  have hleft : shifted.mantissa = mantissa / 2 ^ places := by
    rw [← hshifted, mantissa_shiftRight, mantissa_ofMantissaAndAccuracy]
  have hcarried : shifted.roundedMantissa ≤ mantissa / 2 ^ places + 1 := by
    rw [← hleft]
    exact roundToNearestEven_le shifted.mantissa shifted.accuracy
  have hbits := log2_rounded_le hcarried
  omega

/-- Rounding raises the exponent no further than the number needs it. -/
theorem exponentAtMost_round (sign : Sign) (mantissa : Nat) (exponent : Int)
    (accuracy : Accuracy) :
    ExponentAtMost (max exponent (max (totalExponent mantissa exponent - 52) (-1074)))
      (roundWithAccuracy .binary64 sign mantissa exponent accuracy) := by
  -- The number is shifted, rounded, and shifted once more where rounding has carried.
  have hfirst := exponent_shifted mantissa exponent accuracy
  have hrounded := log2_roundedMantissa_shifted mantissa exponent accuracy
  generalize hshifted : shiftToTargetExponent .binary64 mantissa exponent accuracy = shifted
    at hfirst hrounded
  have hsecond := exponent_shifted shifted.1.roundedMantissa shifted.2 .exact
  simp only [roundWithAccuracy, hshifted]
  split
  · trivial
  · simp only [ExponentAtMost, hsecond, totalExponent] at *
    omega

theorem le_roundToNearestEven (mantissa : Nat) :
    ∀ accuracy, mantissa ≤ Accuracy.roundToNearestEven mantissa accuracy
  | .exact => Nat.le_refl mantissa
  | .inexact .lt => Nat.le_refl mantissa
  | .inexact .eq => Nat.le_add_right mantissa (mantissa % 2)
  | .inexact .gt => Nat.le_succ mantissa

/-- What is left of a mantissa that is shifted for rounding. -/
theorem mantissa_shifted (mantissa : Nat) (exponent : Int) (accuracy : Accuracy) :
    (shiftToTargetExponent .binary64 mantissa exponent accuracy).1.mantissa =
      mantissa / 2 ^ ((shiftToTargetExponent .binary64 mantissa exponent accuracy).2 -
        exponent).toNat := by
  simp only [shiftToTargetExponent, shiftToExponent, mantissa_shiftRight,
    mantissa_ofMantissaAndAccuracy]
  congr 2
  omega

/-- A number with 53 bits and an exponent in a range. -/
def Full (low high : Int) : UnpackedFloat → Prop
  | .finite _ mantissa exponent _ => mantissa.log2 = 52 ∧ low ≤ exponent ∧ exponent ≤ high
  | _ => False

theorem full_round (sign : Sign) (mantissa : Nat) (exponent : Int) (accuracy : Accuracy)
    (hbits : 52 ≤ mantissa.log2) (hlow : -1074 ≤ totalExponent mantissa exponent - 53) :
    Full (totalExponent mantissa exponent - 53) (totalExponent mantissa exponent - 52)
      (roundWithAccuracy .binary64 sign mantissa exponent accuracy) := by
  have hfirst := exponent_shifted mantissa exponent accuracy
  have hleft := mantissa_shifted mantissa exponent accuracy
  generalize hshifted : shiftToTargetExponent .binary64 mantissa exponent accuracy = shifted
    at hfirst hleft
  have hexponent : shifted.2 = totalExponent mantissa exponent - 53 := by
    simp only [totalExponent] at *
    omega
  have hplaces : (shifted.2 - exponent).toNat = mantissa.log2 - 52 := by
    simp only [totalExponent] at *
    omega
  rw [hplaces] at hleft
  have hnonzero : mantissa ≠ 0 := by
    rintro rfl
    simp at hbits
  have hge : 2 ^ 52 ≤ shifted.1.mantissa := by
    rw [hleft, Nat.le_div_iff_mul_le (Nat.two_pow_pos _), ← Nat.pow_add,
      Nat.add_sub_cancel' hbits]
    exact Nat.log2_self_le hnonzero
  have hlt : shifted.1.mantissa < 2 ^ 53 := by
    rw [hleft, Nat.div_lt_iff_lt_mul (Nat.two_pow_pos _), ← Nat.pow_add]
    have hsum : 53 + (mantissa.log2 - 52) = mantissa.log2 + 1 := by omega
    rw [hsum]
    exact Nat.lt_log2_self
  have hrounded : 2 ^ 52 ≤ shifted.1.roundedMantissa :=
    Nat.le_trans hge (le_roundToNearestEven shifted.1.mantissa shifted.1.accuracy)
  have hcarried : shifted.1.roundedMantissa ≤ 2 ^ 53 :=
    Nat.le_trans (roundToNearestEven_le shifted.1.mantissa shifted.1.accuracy) hlt
  -- Where rounding has carried, one more place is left out.
  have hsecond := exponent_shifted shifted.1.roundedMantissa shifted.2 .exact
  have hfinal := mantissa_shifted shifted.1.roundedMantissa shifted.2 .exact
  generalize hagain : shiftToTargetExponent .binary64 shifted.1.roundedMantissa shifted.2 .exact =
    final at hsecond hfinal
  have hfull : final.1.mantissa.log2 = 52 ∧ shifted.2 ≤ final.2 ∧ final.2 ≤ shifted.2 + 1 := by
    rcases Nat.lt_or_eq_of_le hcarried with hless | heq
    · have hlog : shifted.1.roundedMantissa.log2 = 52 :=
        (Nat.log2_eq_iff (by omega)).2 ⟨hrounded, hless⟩
      have hsame : final.2 = shifted.2 := by
        simp only [totalExponent, hlog] at *
        omega
      rw [hsame, Int.sub_self, Int.toNat_zero, Nat.pow_zero, Nat.div_one] at hfinal
      rw [hfinal, hsame]
      exact ⟨hlog, Int.le_refl _, by omega⟩
    · have hnext : final.2 = shifted.2 + 1 := by
        have hlog : (2 ^ 53 : Nat).log2 = 53 := Nat.log2_two_pow
        simp only [totalExponent, heq, hlog] at *
        omega
      have hone : (shifted.2 + 1 - shifted.2).toNat = 1 := by omega
      rw [hnext, hone, heq] at hfinal
      rw [hfinal, hnext]
      exact ⟨by decide, by omega, Int.le_refl _⟩
  simp only [roundWithAccuracy, hshifted, hagain]
  split
  · next hzero => simp [hzero] at hfull
  · exact ⟨hfull.1, by omega, by omega⟩

/-! ## Packing -/

theorem ExponentAtMost.isFinite {bound : Int} {u : UnpackedFloat} (h : ExponentAtMost bound u) :
    u.isFinite = true := by
  cases u with
  | zero => rfl
  | finite => rfl
  | infinity => exact h.elim
  | notANumber => exact h.elim

/-- The exponent of a double is read off its field, unless the field is full. -/
theorem exponentAtMost_unpack {bits : BitVec Format.binary64.numBits}
    (hfield : (unpackExponent bits).toNat < 2047) :
    ExponentAtMost (max ((unpackExponent bits).toNat - 1075) (-1074))
      (UnpackedFloat.unpack .binary64 bits) := by
  have hbias : ((Format.binary64.exponentBias : Nat) : Int) + 52 = 1075 := by decide
  have hnotFull : unpackExponent bits ≠ -BitVec.ofNat Format.binary64.exponentBits 1 := by
    intro hfull
    rw [hfull] at hfield
    exact absurd hfield (by decide)
  simp only [UnpackedFloat.unpack, hnotFull, if_false]
  split
  · next hzero =>
      split
      · trivial
      · simp only [ExponentAtMost, hzero, BitVec.toNat_zero]
        omega
  · simp only [ExponentAtMost]
    omega

/-- A number whose magnitude is below a power of two, or zero. -/
def Below (bound : Int) : UnpackedFloat → Prop
  | .zero _ => True
  | .finite _ mantissa exponent _ => totalExponent mantissa exponent ≤ bound
  | .infinity _ | .notANumber => False

/-- The mantissas of doubles have 53 bits. -/
theorem below_of_exponentAtMost {bits : BitVec Format.binary64.numBits} {bound : Int}
    (h : ExponentAtMost bound (UnpackedFloat.unpack .binary64 bits)) :
    Below (bound + 53) (UnpackedFloat.unpack .binary64 bits) := by
  have hbits : ∀ {mantissa : Nat}, mantissa < 2 ^ 53 → mantissa.log2 ≤ 52 := by
    intro mantissa hlt
    by_cases hzero : mantissa = 0
    · simp [hzero]
    · exact Nat.le_of_lt_succ ((Nat.log2_lt hzero).2 hlt)
  have hplain : (unpackMantissa bits).toNat < 2 ^ 52 := (unpackMantissa bits).isLt
  have himplicit : (1#1 ++ unpackMantissa bits).toNat < 2 ^ 53 :=
    (1#1 ++ unpackMantissa bits).isLt
  revert h
  simp only [UnpackedFloat.unpack]
  split
  · split <;> exact id
  · split
    · split
      · exact id
      · intro h
        have hlog := hbits (Nat.lt_trans hplain (by decide))
        simp only [ExponentAtMost, Below, totalExponent] at h ⊢
        omega
    · intro h
      have hlog := hbits himplicit
      simp only [ExponentAtMost, Below, totalExponent] at h ⊢
      omega

/-- The field in which the exponent of a number is packed. -/
theorem unpackExponent_pack_le {u : UnpackedFloat} {bound : Int} (hbound : bound ≤ topExponent)
    (h : ExponentAtMost bound u) :
    ((unpackExponent (UnpackedFloat.pack .binary64 u)).toNat : Int) ≤ max (bound + 1075) 0 := by
  cases u with
  | infinity => exact h.elim
  | notANumber => exact h.elim
  | zero sign =>
      simp only [UnpackedFloat.pack, packedZero, unpackExponent_packComponents]
      exact Int.le_max_right (bound + 1075) 0
  | finite sign mantissa exponent hpos =>
      have hle : exponent ≤ bound := h
      have hbias : ((Format.binary64.exponentBias : Nat) : Int) + 52 = 1075 := by decide
      simp only [topExponent] at hbound
      simp only [UnpackedFloat.pack]
      split
      · next hover =>
          simp at hover
          omega
      · split
        · simp only [unpackExponent_packComponents, BitVec.toNat_ofNat]
          have := Nat.mod_le (exponent + ↑Format.binary64.exponentBias + 52).toNat (2 ^ 11)
          omega
        · simp only [unpackExponent_packComponents, BitVec.toNat_zero]
          omega

/-- Below the largest exponent a number is packed as a finite double. -/
theorem exponentAtMost_pack {u : UnpackedFloat} {bound : Int} (hbound : bound ≤ topExponent)
    (h : ExponentAtMost bound u) :
    ExponentAtMost (max bound (-1074)) (Float.Model.pack u).unpack := by
  have hunpack : (Float.Model.pack u).unpack =
      UnpackedFloat.unpack .binary64 (UnpackedFloat.pack .binary64 u) := rfl
  have hfield := unpackExponent_pack_le hbound h
  simp only [topExponent] at hbound
  rw [hunpack]
  refine (exponentAtMost_unpack ?_).mono ?_
  · omega
  · omega

def isAtLeastEight : UnpackedFloat → Bool
  | .finite _ mantissa exponent _ => 4 ≤ totalExponent mantissa exponent
  | _ => false

/-- A number with 53 bits is packed as it is; with an exponent that is not too small it is at least
eight. -/
theorem isAtLeastEight_pack {u : UnpackedFloat} {low high : Int} (h : Full low high u)
    (hlow : -49 ≤ low) (hhigh : high ≤ topExponent) :
    isAtLeastEight (Float.Model.pack u).unpack = true := by
  have hunpack : (Float.Model.pack u).unpack =
      UnpackedFloat.unpack .binary64 (UnpackedFloat.pack .binary64 u) := rfl
  cases u with
  | zero => exact h.elim
  | infinity => exact h.elim
  | notANumber => exact h.elim
  | finite sign mantissa exponent hpos =>
      obtain ⟨hbits, hge, hle⟩ := h
      have hbias : ((Format.binary64.exponentBias : Nat) : Int) + 52 = 1075 := by decide
      simp only [topExponent] at hhigh
      generalize hfield : (exponent + Format.binary64.exponentBias + 52).toNat = field
      have hrange : (field : Int) = exponent + 1075 := by omega
      have hpacked : UnpackedFloat.pack .binary64 (.finite sign mantissa exponent hpos) =
          packComponents .binary64 sign (BitVec.ofNat 11 field) (BitVec.ofNat 52 mantissa) := by
        have hsmall : ¬ 2 ^ Format.binary64.exponentBits ≤ field + 1 := by
          change ¬ 2 ^ 11 ≤ field + 1
          omega
        have hlength : mantissa.log2 + 1 = Format.binary64.mantissaBits := by
          rw [hbits]
          rfl
        simp only [UnpackedFloat.pack]
        rw [if_neg (hfield ▸ hsmall), if_pos hlength, ← hfield]
        rfl
      have hnat : (BitVec.ofNat 11 field).toNat = field := by
        rw [BitVec.toNat_ofNat]
        exact Nat.mod_eq_of_lt (by omega)
      have hnotFull : BitVec.ofNat 11 field ≠ -BitVec.ofNat 11 1 := by
        intro hfull
        have hsame := congrArg BitVec.toNat hfull
        rw [hnat, show (-BitVec.ofNat 11 1).toNat = 2047 from by decide] at hsame
        omega
      have hnotZero : BitVec.ofNat 11 field ≠ BitVec.ofNat 11 0 := by
        intro hzero
        have hsame := congrArg BitVec.toNat hzero
        rw [hnat, show (BitVec.ofNat 11 0).toNat = 0 from by decide] at hsame
        omega
      have himplicit : 52 ≤ (1#1 ++ BitVec.ofNat 52 mantissa).toNat.log2 := by
        have hge : 2 ^ 52 ≤ (1#1 ++ BitVec.ofNat 52 mantissa).toNat := by
          rw [BitVec.toNat_append]
          exact Nat.left_le_or
        exact (Nat.le_log2 (by omega)).2 hge
      rw [hunpack, hpacked]
      simp only [UnpackedFloat.unpack, unpackExponent_packComponents, unpackMantissa_packComponents]
      rw [if_neg hnotFull, if_neg hnotZero]
      simp only [isAtLeastEight, totalExponent, hnat]
      exact decide_eq_true (by omega)

/-- The exponent of a finite double does not exceed the largest one. -/
theorem exponentAtMost_of_isFinite {bits : BitVec Format.binary64.numBits}
    (hfinite : (UnpackedFloat.unpack .binary64 bits).isFinite = true) :
    ExponentAtMost topExponent (UnpackedFloat.unpack .binary64 bits) := by
  have hfield : (unpackExponent bits).toNat < 2 ^ 11 := (unpackExponent bits).isLt
  have hnotFull : (unpackExponent bits).toNat ≠ 2047 := by
    intro hnat
    have hfull : unpackExponent bits = -BitVec.ofNat Format.binary64.exponentBits 1 :=
      BitVec.eq_of_toNat_eq hnat
    -- A full field stands for an infinity or for no number.
    simp only [UnpackedFloat.unpack, hfull, if_true] at hfinite
    split at hfinite <;> cases hfinite
  refine (exponentAtMost_unpack (by omega)).mono ?_
  simp only [topExponent]
  omega

theorem exponentAtMost_neg {u : UnpackedFloat} {bound : Int} (h : ExponentAtMost bound u) :
    ExponentAtMost bound u.neg := by
  cases u with
  | zero => trivial
  | finite => exact h
  | infinity => exact h
  | notANumber => exact h

/-- A sign makes no difference to whether a double is finite. -/
theorem isFinite_withSign {x : Float} (negative : Bool) (hfinite : x.isFinite = true) :
    (withSign negative x).isFinite = true := by
  cases negative with
  | false => exact hfinite
  | true =>
      have hneg := exponentAtMost_neg (exponentAtMost_of_isFinite hfinite)
      exact (exponentAtMost_pack (Int.le_refl _) hneg).isFinite

/-! ## Whole numbers -/

theorem log2_shiftLeft_le (n places : Nat) : (n <<< places).log2 ≤ n.log2 + 1 + places := by
  apply log2_le_of_le
  rw [Nat.shiftLeft_eq, Nat.pow_add]
  exact Nat.mul_le_mul_right _ (Nat.le_of_lt Nat.lt_log2_self)

/-- A whole number of 64 bits as a double. -/
theorem exponentAtMost_toFloat (n : UInt64) : ExponentAtMost 15 n.toFloat.toModel.unpack := by
  have hbits : n.toNat.log2 ≤ 64 := log2_le_of_le (Nat.le_of_lt n.toNat_lt)
  have hround : ExponentAtMost 15 (UnpackedFloat.ofInt .binary64 n.toNat) := by
    simp only [UnpackedFloat.ofInt, UnpackedFloat.normalize]
    split
    · next hnegative =>
        have hlt : (n.toNat : Int) < 0 := Int.compare_eq_lt.1 hnegative
        omega
    · trivial
    · simp only [UnpackedFloat.round, decreaseExponent]
      refine (exponentAtMost_round _ _ _ _).mono ?_
      simp only [totalExponent]
      generalize (0 - Format.binary64.targetExponent _).toNat = places
      have hshift := log2_shiftLeft_le (n.toNat : Int).toNat places
      simp only [Int.toNat_natCast] at *
      omega
  exact exponentAtMost_pack (by decide) hround

/-- Multiplying by a power of two that is moved to the exponent changes little. -/
theorem exponentAtMost_mul {u : UnpackedFloat} {bound : Int} (h : Below bound u) (sign : Sign)
    (places : Nat) (hpos : 0 < 2 ^ places) :
    ExponentAtMost (max (bound - places) (max (bound - 50) (-1074)))
      (UnpackedFloat.mul .binary64 u (.finite sign (2 ^ places) (-places) hpos)) := by
  cases u with
  | infinity => exact h.elim
  | notANumber => exact h.elim
  | zero => trivial
  | finite _ mantissa exponent _ =>
      have hproduct := log2_shiftLeft_le mantissa places
      rw [Nat.shiftLeft_eq] at hproduct
      refine (exponentAtMost_round _ _ _ _).mono ?_
      simp only [Below, totalExponent] at h ⊢
      omega

/-- A whole number of 64 bits without decimal places. -/
theorem isFinite_ofScientific {n : Nat} (hlt : n < 2 ^ 64) :
    (Float.ofScientific n false 0).isFinite = true := by
  unfold Float.ofScientific
  split
  · -- A short number is converted and multiplied by one.
    have hone : (Float.exactlyRepresentablePowersOfTen[0]).toModel.unpack =
        .finite .positive (2 ^ 52) (-(52 : Nat)) (by decide) := rfl
    have hbelow := below_of_exponentAtMost (exponentAtMost_toFloat n.toUInt64)
    have hmul := exponentAtMost_mul hbelow .positive 52 (by decide)
    rw [← hone] at hmul
    exact (exponentAtMost_pack (by decide) hmul).isFinite
  · -- A longer one is shifted and rounded.
    have hbits : n.log2 ≤ 64 := log2_le_of_le (Nat.le_of_lt hlt)
    have hscaled : ExponentAtMost 66 (UnpackedFloat.ofScientific .binary64 n 0) := by
      have hshift := log2_shiftLeft_le n 53
      have hplaces : Format.binary64.mantissaBits = 53 := rfl
      unfold UnpackedFloat.ofScientific
      split
      · trivial
      · have hwidth : (2 : Int) ^ Format.binary64.exponentBits = 2048 := rfl
        rw [if_neg (by omega), if_neg (by omega), if_pos (Int.le_refl 0)]
        simp only [UnpackedFloat.mul, hplaces, Int.toNat_zero, Nat.pow_zero, Nat.mul_one]
        refine (exponentAtMost_round _ _ _ _).mono ?_
        simp only [totalExponent]
        omega
    exact (exponentAtMost_pack (by decide) hscaled).isFinite

/-- The double nearest to a natural number of 64 bits is finite. -/
theorem isFinite_ofNat {n : Nat} (hlt : n < 2 ^ 64) : (ofNat n).isFinite = true := by
  have hdigits : (Nat.toDigits 10 n).length ≤ 20 :=
    (Nat.length_toDigits_le_iff (by decide) (by decide)).2 (Nat.lt_trans hlt (by decide))
  simp only [ofNat, Decimal.toFloat]
  split
  · decide +kernel
  · split
    · omega
    · exact isFinite_ofScientific hlt

/-- The double nearest to an integer of 64 bits is finite. -/
theorem isFinite_ofInt {n : Int} (hlow : -2 ^ 63 ≤ n) (hhigh : n < 2 ^ 64) :
    (ofInt n).isFinite = true :=
  isFinite_withSign _ (isFinite_ofNat (by omega))

/-! ## Scaling -/

/-- A power of ten that is no table entry is rounded from its exact value. -/
theorem toModel_powerOfTen {places : Nat} (hlow : 22 ≤ places) (hhigh : places < 308) :
    (powerOfTen (places + 1)).toModel =
      Float.Model.pack (UnpackedFloat.ofScientific .binary64 1 ((places + 1 : Nat) : Int)) := by
  have hlength : (Nat.toDigits 10 1).length = 1 := by decide
  have htop : ¬ ((310 : Int) < ((places + 1 : Nat) : Int) + ((1 : Nat) : Int)) := by omega
  have hbottom : ¬ (((places + 1 : Nat) : Int) + ((1 : Nat) : Int) < -330) := by omega
  have hnonneg : ¬ (((places + 1 : Nat) : Int) < 0) := by omega
  have hscientific : ¬ (1 < 2 ^ 53 ∧ places + 1 ≤ 22) := by omega
  simp only [powerOfTen, Decimal.toFloat, hlength, hbottom, htop, hnonneg, decide_false,
    Nat.one_ne_zero, Bool.or_self, Bool.false_eq_true, if_false, Int.natAbs_natCast,
    Float.ofScientific, dif_neg hscientific]
  rfl

/-- The exact value of a power of ten has the exponent that its size asks for. -/
theorem full_ofScientific {places : Nat} (hplaces : places < 307) :
    ∃ low high, Full low high (UnpackedFloat.ofScientific .binary64 1 ((places + 1 : Nat) : Int)) ∧
      -49 ≤ low ∧ high ≤ topExponent := by
  generalize hvalue : (1 <<< 53) * 10 ^ (places + 1) = value
  have hlow : 2 ^ 56 ≤ value := by
    calc 2 ^ 56 ≤ (1 <<< 53) * 10 ^ 1 := by decide
      _ ≤ (1 <<< 53) * 10 ^ (places + 1) :=
          Nat.mul_le_mul_left _ (Nat.pow_le_pow_right (by decide) (by omega))
      _ = value := hvalue
  have hhigh : value < 2 ^ 1073 := by
    calc value = (1 <<< 53) * 10 ^ (places + 1) := hvalue.symm
      _ ≤ (1 <<< 53) * 10 ^ 307 :=
          Nat.mul_le_mul_left _ (Nat.pow_le_pow_right (by decide) (by omega))
      _ < 2 ^ 1073 := by decide +kernel
  have hnonzero : value ≠ 0 := by omega
  have hbits : 56 ≤ value.log2 := (Nat.le_log2 hnonzero).2 hlow
  have hlength : value.log2 ≤ 1073 := log2_le_of_le (Nat.le_of_lt hhigh)
  have htotal : totalExponent value (-53 + 0) = value.log2 - 52 := by
    simp only [totalExponent]
    omega
  have hround := full_round (.positive * .positive) value (-53 + 0) .exact (by omega) (by omega)
  have hscientific : UnpackedFloat.ofScientific .binary64 1 ((places + 1 : Nat) : Int) =
      roundWithAccuracy .binary64 (.positive * .positive) value (-53 + 0) .exact := by
    have hwidth : (2 : Int) ^ Format.binary64.exponentBits = 2048 := rfl
    unfold UnpackedFloat.ofScientific
    rw [dif_neg Nat.one_ne_zero, if_neg (by omega), if_neg (by omega),
      if_pos (Int.natCast_nonneg _), ← hvalue]
    rfl
  rw [← hscientific] at hround
  refine ⟨_, _, hround, by omega, ?_⟩
  simp only [topExponent]
  omega

theorem isAtLeastEight_powerOfTen {places : Nat} (hplaces : places < 308) :
    isAtLeastEight (powerOfTen (places + 1)).toModel.unpack = true := by
  -- The small ones come from a table, and the largest is too close to the end of the range.
  have hends : ∀ places ∈ 307 :: List.range 22,
      isAtLeastEight (powerOfTen (places + 1)).toModel.unpack = true := by
    decide +kernel
  by_cases hmem : places ∈ 307 :: List.range 22
  · exact hends places hmem
  · have hbetween : 22 ≤ places ∧ places < 307 := by
      simp only [List.mem_cons, List.mem_range] at hmem
      omega
    rcases full_ofScientific hbetween.2 with ⟨low, high, hfull, hlow, hhigh⟩
    rw [toModel_powerOfTen hbetween.1 hplaces]
    exact isAtLeastEight_pack hfull hlow hhigh

theorem log2_shiftLeft_div_le (n places d : Nat) (hd : d ≠ 0) :
    (n <<< places / d).log2 ≤ n.log2 + 1 + places - d.log2 := by
  apply log2_le_of_le
  have hprod : (n <<< places / d) * 2 ^ d.log2 < 2 ^ (n.log2 + 1 + places) := by
    calc (n <<< places / d) * 2 ^ d.log2
        ≤ (n <<< places / d) * d := Nat.mul_le_mul_left _ (Nat.log2_self_le hd)
      _ ≤ n <<< places := Nat.div_mul_le_self _ _
      _ = n * 2 ^ places := Nat.shiftLeft_eq n places
      _ < 2 ^ (n.log2 + 1) * 2 ^ places :=
          Nat.mul_lt_mul_of_pos_right Nat.lt_log2_self (Nat.two_pow_pos places)
      _ = 2 ^ (n.log2 + 1 + places) := (Nat.pow_add 2 _ _).symm
  have hsplit : 2 ^ (n.log2 + 1 + places) ≤ 2 ^ (n.log2 + 1 + places - d.log2) * 2 ^ d.log2 := by
    rw [← Nat.pow_add]
    exact Nat.pow_le_pow_right (by decide) (by omega)
  exact Nat.le_of_lt (Nat.lt_of_mul_lt_mul_right (Nat.lt_of_lt_of_le hprod hsplit))

/-- A number below the range of doubles divided by at least eight stays well inside of it. -/
theorem exponentAtMost_div {u v : UnpackedFloat} (hu : Below 1024 u)
    (hv : isAtLeastEight v = true) :
    ExponentAtMost topExponent (UnpackedFloat.div .binary64 u v) := by
  cases v with
  | infinity => cases hv
  | notANumber => cases hv
  | zero => cases hv
  | finite sign₂ m₂ e₂ hpos₂ =>
      have hlarge : 4 ≤ totalExponent m₂ e₂ := by simpa [isAtLeastEight] using hv
      cases u with
      | infinity => exact hu.elim
      | notANumber => exact hu.elim
      | zero => trivial
      | finite sign₁ m₁ e₁ hpos₁ =>
          have hbelow : totalExponent m₁ e₁ ≤ 1024 := hu
          have htarget :
              Format.binary64.targetExponent (totalExponent m₁ e₁ - totalExponent m₂ e₂) =
                max (totalExponent m₁ e₁ - totalExponent m₂ e₂ - 53) (-1074) := rfl
          simp only [UnpackedFloat.div, divCore, htarget]
          refine (exponentAtMost_round _ _ _ _).mono ?_
          generalize hshift : (e₁ - e₂ - min (e₁ - e₂)
            (max (totalExponent m₁ e₁ - totalExponent m₂ e₂ - 53) (-1074))).toNat = places
          have hquotient := log2_shiftLeft_div_le m₁ places m₂ (Nat.ne_of_gt hpos₂)
          simp only [totalExponent, topExponent] at *
          omega

/-- A finite double divided by a number of at least eight is finite. -/
theorem isFinite_div {x y : Float} (hx : x.isFinite = true)
    (hy : isAtLeastEight y.toModel.unpack = true) : (x / y).isFinite = true := by
  have hbelow := below_of_exponentAtMost (exponentAtMost_of_isFinite hx)
  exact (exponentAtMost_pack (Int.le_refl _) (exponentAtMost_div hbelow hy)).isFinite

/-- Moving the point to the left keeps a number finite. -/
theorem isFinite_shrink {x : Float} {places : Nat} (hx : x.isFinite = true) (hplaces : 0 < places) :
    (shrink x places).isFinite = true := by
  fun_induction shrink x places with
  | case1 x places hle =>
      rcases Nat.exists_eq_add_one_of_ne_zero (Nat.ne_of_gt hplaces) with ⟨rest, rfl⟩
      exact isFinite_div hx (isAtLeastEight_powerOfTen hle)
  | case2 x places hle hzero => exact hx
  | case3 x places hle hzero ih =>
      refine ih (isFinite_div hx (isAtLeastEight_powerOfTen (by decide : 307 < 308))) ?_
      simp only [greatestPower] at *
      omega

/-- What scaling gives for a decimal of 64 bits is finite. -/
theorem isFinite_scaled? {d : Decimal} {x : Float} (hlt : d.digits < 2 ^ 64)
    (hscaled : d.scaled? = some x) : x.isFinite = true := by
  have hdigits := isFinite_ofNat hlt
  simp only [Decimal.scaled?] at hscaled
  split at hscaled
  · next hnegative =>
      cases hscaled
      exact isFinite_shrink hdigits (by omega)
  · split at hscaled
    · split at hscaled
      · next hfinite =>
          cases hscaled
          exact hfinite
      · cases hscaled
    · split at hscaled
      · cases hscaled
        exact hdigits
      · cases hscaled

end Number
end FlowTrace
