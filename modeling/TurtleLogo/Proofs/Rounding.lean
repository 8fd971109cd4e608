import TurtleLogo.Number.Arithmetic
import TurtleLogo.Proofs.Numerals

/-!
# Numbers as they are computed with

The library computes with numbers that are unpacked into a sign, a mantissa and an exponent, rounds the result, and packs
it again. This module says what unpacked numbers look like and how far arithmetic can take them:

* `Fits top f` — `f` is finite, in the form in which the format has it, and its last bit counts for at most `2 ^ top`;
* `unpacked_spec`, `unpack_pack` — finite numbers fit with `top = 104`, and what fits survives packing;
* `fits_round` — a rounded number fits, with its last bit at most one place higher than before;
* `fits_add`, `fits_sub`, `fits_mul` — so sums and products fit, and do not overflow if their parts are small enough.

Two facts about order and one about whole parts, which follow from the form of numbers, are at the end.
-/

namespace TurtleLogo
namespace Number

open Float.Model (Format UnpackedFloat totalExponent)
open Float.Model.UnpackedFloat (Sign Accuracy ExtendedMantissa unpackMantissa unpackExponent unpackSign packComponents pack
  unpack shiftToExponent shiftToTargetExponent roundWithAccuracy decreaseExponent)

/-! ## Unpacked numbers -/

/-- A number as the library computes with it. -/
def unpacked (x : Float32) : UnpackedFloat :=
  unpack Format.binary32 x.toBits.toBitVec

/-- A mantissa has twenty-four bits, or fewer where the last one is as low as it can be. -/
def Fits (top : Int) : UnpackedFloat → Prop
  | .zero _ => True
  | .finite _ m e _ => m < 2 ^ 24 ∧ -149 ≤ e ∧ e ≤ top ∧ (2 ^ 23 ≤ m ∨ e = -149)
  | _ => False

/-- The bits below the sign that a number of this form has. -/
def Occupies (bits : Nat) : UnpackedFloat → Prop
  | .zero _ => bits = 0
  | .finite _ m e _ => (e + 149) * 2 ^ 23 + m = bits
  | _ => False

theorem Fits.mono {f : UnpackedFloat} {top top' : Int} (h : Fits top f) (htop : top ≤ top') : Fits top' f := by
  cases f with
  | infinity s | notANumber => exact h
  | zero s => trivial
  | finite s m e hm => exact ⟨h.1, h.2.1, h.2.2.1.trans htop, h.2.2.2⟩

theorem isFinite_of_fits {f : UnpackedFloat} {top : Int} (h : Fits top f) : f.isFinite = true := by
  cases f with
  | infinity s | notANumber => exact h.elim
  | zero s | finite s m e hm => rfl

section Fields

variable (s : Sign) {exponent : BitVec 8} {mantissa : BitVec 23}

/-- Between the two extreme exponents a leading one is understood. -/
theorem unpack_normal (hzero : exponent ≠ 0#8) (hall : exponent ≠ -1#8) :
    unpack Format.binary32 (packComponents Format.binary32 s exponent mantissa) =
      .finite s (2 ^ 23 + mantissa.toNat) (exponent.toNat - 150) (by omega) := by
  have hlead : (1#1 ++ mantissa).toNat = 2 ^ 23 + mantissa.toNat := by
    rw [BitVec.toNat_append, ← Nat.shiftLeft_add_eq_or_of_lt mantissa.isLt]
    rfl
  have hall' : exponent ≠ 255#8 := hall
  simp [unpack, hzero, hall', hlead, Format.exponentBias]

theorem unpack_subnormal (hpos : 0 < mantissa.toNat) :
    unpack Format.binary32 (packComponents Format.binary32 s 0#8 mantissa) = .finite s mantissa.toNat (-149) hpos := by
  have hne : mantissa ≠ 0#23 := by
    rintro rfl
    exact Nat.lt_irrefl 0 hpos
  simp [unpack, hne, Format.exponentBias]

theorem unpack_zero : unpack Format.binary32 (packComponents Format.binary32 s 0#8 0#23) = .zero s := by
  simp [unpack]

theorem unpack_spec (hall : exponent ≠ -1#8) :
    Fits 104 (unpack Format.binary32 (packComponents Format.binary32 s exponent mantissa)) ∧
      Occupies (exponent.toNat * 2 ^ 23 + mantissa.toNat)
        (unpack Format.binary32 (packComponents Format.binary32 s exponent mantissa)) := by
  have hfraction := mantissa.isLt
  have hfield : exponent.toNat ≠ 255 := fun h => hall (BitVec.eq_of_toNat_eq h)
  have hlt := exponent.isLt
  by_cases hexponent : exponent = 0#8
  · subst hexponent
    have hzero : (0#8).toNat = 0 := rfl
    by_cases hmantissa : mantissa.toNat = 0
    · have hnone : mantissa = 0#23 := BitVec.eq_of_toNat_eq hmantissa
      subst hnone
      rw [unpack_zero]
      exact ⟨trivial, rfl⟩
    · rw [unpack_subnormal s (Nat.pos_of_ne_zero hmantissa)]
      simp only [Fits, Occupies, or_true, and_true]
      omega
  · have hpos : exponent.toNat ≠ 0 := fun h => hexponent (BitVec.eq_of_toNat_eq h)
    rw [unpack_normal s hexponent hall]
    simp only [Fits, Occupies]
    omega

end Fields

/-- The form of a finite number, and its place among the bit patterns. -/
theorem unpacked_spec {x : Float32} (h : x.isFinite = true) :
    Fits 104 (unpacked x) ∧ Occupies (magnitudeBits x) (unpacked x) := by
  have hparts := @UnpackedFloat.packComponents_unpackSign_unpackExponent_unpackMantissa Format.binary32 x.toBits.toBitVec
  -- All bits of the exponent are set only in infinities and NaN.
  have hall : @unpackExponent Format.binary32 x.toBits.toBitVec ≠ -1#8 := by
    rw [Ne, unpackExponent_eq_iff, Nat.not_le]
    exact (isFinite_iff x).1 h
  have hspec := @unpack_spec (Sign.ofBitVec (@unpackSign Format.binary32 x.toBits.toBitVec)) _
    (@unpackMantissa Format.binary32 x.toBits.toBitVec) hall
  have hbits : (@unpackExponent Format.binary32 x.toBits.toBitVec).toNat * 2 ^ 23 +
      (@unpackMantissa Format.binary32 x.toBits.toBitVec).toNat = magnitudeBits x := by
    have hmagnitude : magnitudeBits x = x.toBits.toBitVec.toNat % twoTo 31 := rfl
    rw [toNat_unpackExponent, toNat_unpackMantissa, hmagnitude]
    simp only [twoTo, Nat.pow_eq]
    omega
  rwa [hparts, hbits] at hspec

/-- A number that fits is unpacked as it was packed. -/
theorem unpack_pack {f : UnpackedFloat} (h : Fits 104 f) : unpack Format.binary32 (pack Format.binary32 f) = f := by
  cases f with
  | infinity s | notANumber => exact h.elim
  | zero s => exact UnpackedFloat.unpack_packedZero
  | finite s m e hm =>
      rcases h with ⟨hlt, hlow, htop, hform⟩
      have hbias : (e + (Format.binary32.exponentBias : Int) + (23 : Nat)).toNat = (e + 150).toNat := by
        simp only [Format.exponentBias]
        omega
      have hfield : ¬ 2 ^ 8 ≤ (e + 150).toNat + 1 := by omega
      have hlog : m.log2 = 23 ↔ 2 ^ 23 ≤ m := by
        rw [Nat.log2_eq_iff hm.ne']
        omega
      simp only [pack, hbias, if_neg hfield, Format.mantissaBits]
      split
      · next hnormal =>
          -- The leading one is dropped here and put back by the unpacking.
          have hlead : 2 ^ 23 ≤ m := hlog.1 (by omega)
          have hexponent : (BitVec.ofNat 8 (e + 150).toNat).toNat = (e + 150).toNat := by
            rw [BitVec.toNat_ofNat]
            omega
          have hmantissa : (BitVec.ofNat 23 m).toNat = m - 2 ^ 23 := by
            rw [BitVec.toNat_ofNat]
            omega
          have hzero : BitVec.ofNat 8 (e + 150).toNat ≠ 0#8 := by
            intro heq
            have hnat : (e + 150).toNat = 0 := hexponent.symm.trans (congrArg BitVec.toNat heq)
            omega
          have hall : BitVec.ofNat 8 (e + 150).toNat ≠ -1#8 := by
            intro heq
            have hnat : (e + 150).toNat = 255 := hexponent.symm.trans (congrArg BitVec.toNat heq)
            omega
          rw [unpack_normal s hzero hall]
          simp only [UnpackedFloat.finite.injEq, true_and, hexponent, hmantissa]
          omega
      · next hsub =>
          have hsmall : m < 2 ^ 23 := by
            by_contra hlead
            exact hsub (by rw [hlog.2 (by omega)])
          have hmantissa : (BitVec.ofNat 23 m).toNat = m := by
            rw [BitVec.toNat_ofNat]
            omega
          rw [unpack_subnormal _ (by omega)]
          simp only [UnpackedFloat.finite.injEq, true_and, hmantissa]
          omega

/-- What fits is packed into a finite number. -/
theorem isFinite_pack {f : UnpackedFloat} (h : Fits 104 f) :
    (unpack Format.binary32 (pack Format.binary32 f)).isFinite = true := by
  rw [unpack_pack h]
  exact isFinite_of_fits h

/-! ## Rounding -/

theorem mantissa_shift (em : ExtendedMantissa) (k : Nat) : (em >>> k).mantissa = em.mantissa / 2 ^ k := by
  change (Nat.repeat ExtendedMantissa.shiftRightOne k em).mantissa = em.mantissa / 2 ^ k
  induction k with
  | zero =>
      simp [Nat.repeat]
  | succ k ih =>
      rw [Nat.repeat, ExtendedMantissa.shiftRightOne, ih, Nat.div_div_eq_div_mul, ← Nat.pow_succ]

theorem roundedMantissa_bounds (em : ExtendedMantissa) :
    em.mantissa ≤ em.roundedMantissa ∧ em.roundedMantissa ≤ em.mantissa + 1 := by
  rcases em with ⟨mantissa, roundBit, stickyBit⟩
  have hmod := Nat.mod_lt mantissa Nat.zero_lt_two
  cases roundBit <;> cases stickyBit <;>
    simp only [ExtendedMantissa.roundedMantissa, ExtendedMantissa.accuracy, Accuracy.roundToNearestEven] <;> omega

/-- The place of the last bit that is kept of a mantissa. -/
def lastPlace (m : Nat) (e : Int) : Int :=
  Format.binary32.targetExponent (totalExponent m e)

theorem lastPlace_eq (m : Nat) (e : Int) : lastPlace m e = max (m.log2 + e - 23) (-149) := by
  simp only [lastPlace, Format.targetExponent, totalExponent, Format.mantissaBits, Format.minExponent]
  omega

theorem mantissa_ofMantissaAndAccuracy (m : Nat) (accuracy : Accuracy) :
    (ExtendedMantissa.ofMantissaAndAccuracy m accuracy).mantissa = m := by
  fun_cases ExtendedMantissa.ofMantissaAndAccuracy m accuracy <;> rfl

/-- Shifting drops the bits below the last place. -/
theorem shiftToTargetExponent_spec {m : Nat} {e : Int} (accuracy : Accuracy) (he : e ≤ lastPlace m e) :
    (shiftToTargetExponent Format.binary32 m e accuracy).2 = lastPlace m e ∧
      (shiftToTargetExponent Format.binary32 m e accuracy).1.mantissa = m / 2 ^ (lastPlace m e - e).toNat := by
  constructor
  · change e + ((lastPlace m e - e).toNat : Int) = lastPlace m e
    omega
  · have hshift := mantissa_shift (ExtendedMantissa.ofMantissaAndAccuracy m accuracy) (lastPlace m e - e).toNat
    rwa [mantissa_ofMantissaAndAccuracy] at hshift

theorem shiftToTargetExponent_of_lt {m : Nat} {e : Int} (hm : m < 2 ^ 24) (he : -149 ≤ e) :
    shiftToTargetExponent Format.binary32 m e .exact = (⟨m, false, false⟩, e) := by
  have hlog : m.log2 ≤ 23 := by
    by_cases hzero : m = 0
    · simp [hzero]
    · have hlt := (Nat.log2_lt hzero).2 hm
      omega
  have hshift : (lastPlace m e - e).toNat = 0 := by
    rw [lastPlace_eq]
    omega
  rw [lastPlace] at hshift
  simp only [shiftToTargetExponent, shiftToExponent, hshift]
  simp [HShiftRight.hShiftRight, Nat.repeat, ExtendedMantissa.ofMantissaAndAccuracy]

/-- A rounded mantissa has a leading one, or its last place is the lowest. It has one bit more if all bits are carried. -/
theorem roundedMantissa_spec {m : Nat} {e : Int} (accuracy : Accuracy) (he : e ≤ lastPlace m e) :
    (2 ^ 23 ≤ (shiftToTargetExponent Format.binary32 m e accuracy).1.roundedMantissa ∨ lastPlace m e = -149) ∧
      (shiftToTargetExponent Format.binary32 m e accuracy).1.roundedMantissa ≤ 2 ^ 24 := by
  have hrounded := roundedMantissa_bounds (shiftToTargetExponent Format.binary32 m e accuracy).1
  rw [(shiftToTargetExponent_spec accuracy he).2] at hrounded
  have hlast := lastPlace_eq m e
  constructor
  · by_cases hmin : lastPlace m e = -149
    · exact .inr hmin
    · have hne : m ≠ 0 := by
        rintro rfl
        simp at hlast
        omega
      have hshift : (lastPlace m e - e).toNat + 23 = m.log2 := by omega
      have hlead : 2 ^ 23 ≤ m / 2 ^ (lastPlace m e - e).toNat := by
        rw [Nat.le_div_iff_mul_le (Nat.two_pow_pos _), ← Nat.pow_add, Nat.add_comm, hshift]
        exact Nat.log2_self_le hne
      exact .inl (hlead.trans hrounded.1)
  · have hquotient : m / 2 ^ (lastPlace m e - e).toNat < 2 ^ 24 := by
      rw [Nat.div_lt_iff_lt_mul (Nat.two_pow_pos _), ← Nat.pow_add]
      exact Nat.lt_of_lt_of_le Nat.lt_log2_self (Nat.pow_le_pow_right (by decide) (by omega))
    omega

/-- Rounding makes a number fit. Its last bit is one place higher than before if all bits were carried. -/
theorem fits_round {m : Nat} {e top : Int} (s : Sign) (accuracy : Accuracy) (he : e ≤ lastPlace m e)
    (htop : lastPlace m e ≤ top) : Fits (top + 1) (roundWithAccuracy Format.binary32 s m e accuracy) := by
  rcases roundedMantissa_spec accuracy he with ⟨hlow, hhigh⟩
  simp only [roundWithAccuracy]
  rw [(shiftToTargetExponent_spec accuracy he).1]
  generalize (shiftToTargetExponent Format.binary32 m e accuracy).1.roundedMantissa = r at *
  have hlast := lastPlace_eq m e
  generalize lastPlace m e = last at *
  rcases hhigh.lt_or_eq with hlt | rfl
  · simp only [shiftToTargetExponent_of_lt hlt (show -149 ≤ last by omega)]
    split
    · exact trivial
    · exact ⟨hlt, by omega, by omega, hlow⟩
  · -- All bits were ones and are carried into the next place.
    have hcarry : lastPlace (2 ^ 24) last = last + 1 := by
      rw [lastPlace_eq, Nat.log2_two_pow]
      omega
    rcases shiftToTargetExponent_spec (m := 2 ^ 24) (e := last) .exact (by omega) with ⟨hplace, hquotient⟩
    rw [hcarry] at hplace hquotient
    have hhalf : (shiftToTargetExponent Format.binary32 (2 ^ 24) last .exact).1.mantissa = 2 ^ 23 := by
      rw [hquotient, show (last + 1 - last).toNat = 1 by omega]
      rfl
    split
    · exact trivial
    · simp only [Fits, hplace, hhalf]
      omega

theorem log2_shiftLeft {n : Nat} (hn : n ≠ 0) (k : Nat) : (n <<< k).log2 = n.log2 + k := by
  have hpos := Nat.two_pow_pos k
  rw [Nat.shiftLeft_eq, Nat.log2_eq_iff (Nat.mul_ne_zero hn hpos.ne'), Nat.pow_add, Nat.add_right_comm, Nat.pow_add]
  exact ⟨Nat.mul_le_mul_right _ (Nat.log2_self_le hn), Nat.mul_lt_mul_of_pos_right Nat.lt_log2_self hpos⟩

theorem lastPlace_shiftLeft {n : Nat} (hn : n ≠ 0) (e : Int) (k : Nat) :
    lastPlace (n <<< k) (e - k) = lastPlace n e := by
  rw [lastPlace_eq, lastPlace_eq, log2_shiftLeft hn]
  omega

theorem fits_normalize {m e : Int} {k : Nat} {top : Int} (zeroSign : Sign) (hm : m.natAbs < 2 ^ (24 + k))
    (hk : e + k ≤ top) (htop : -149 ≤ top) :
    Fits (top + 1) (UnpackedFloat.normalize Format.binary32 m e zeroSign) := by
  -- Zeros are put behind a mantissa that ends above its last place, which does not move that place.
  have hround (s : Sign) (n : Nat) (hpos : 0 < n) (hn : n < 2 ^ (24 + k)) :
      Fits (top + 1) (UnpackedFloat.round Format.binary32 s n e) := by
    have hlog : n.log2 < 24 + k := (Nat.log2_lt hpos.ne').2 hn
    have hlast := lastPlace_eq n e
    have hshifted := lastPlace_shiftLeft hpos.ne' e (e - lastPlace n e).toNat
    refine fits_round s .exact ?_ (hshifted.trans_le (by omega))
    rw [← lastPlace, hshifted]
    omega
  unfold UnpackedFloat.normalize
  rcases lt_trichotomy m 0 with hneg | rfl | hpos
  · rw [Int.compare_eq_lt.2 hneg]
    exact hround .negative (-m).toNat (by omega) (by omega)
  · exact trivial
  · rw [Int.compare_eq_gt.2 hpos]
    exact hround .positive m.toNat (by omega) (by omega)

/-! ## Sums, differences and products -/

theorem decreaseExponent_lt {m : Nat} {e top : Int} (low : Int) (hm : m < 2 ^ 24) (htop : e ≤ top) :
    (decreaseExponent m e low).1 < 2 ^ (24 + (top - low).toNat) := by
  have hpow : 2 ^ (e - low).toNat ≤ 2 ^ (top - low).toNat := Nat.pow_le_pow_right (by decide) (by omega)
  simp only [decreaseExponent, Nat.shiftLeft_eq]
  calc m * 2 ^ (e - low).toNat
      < 2 ^ 24 * 2 ^ (e - low).toNat := Nat.mul_lt_mul_of_pos_right hm (Nat.two_pow_pos _)
    _ ≤ 2 ^ 24 * 2 ^ (top - low).toNat := Nat.mul_le_mul_left _ hpow
    _ = 2 ^ (24 + (top - low).toNat) := (Nat.pow_add ..).symm

theorem natAbs_apply (s : Sign) (n : Nat) : (s.apply (n : Int)).natAbs = n := by
  cases s <;> simp [Sign.apply]

/-- The mantissas of two numbers are brought to the lower exponent before they are put together. -/
theorem fits_together {m₁ m₂ : Nat} {e₁ e₂ top m : Int} (h₁ : m₁ < 2 ^ 24 ∧ e₁ ≤ top) (h₂ : m₂ < 2 ^ 24 ∧ e₂ ≤ top)
    (htop : -149 ≤ top)
    (hm : m.natAbs ≤ (decreaseExponent m₁ e₁ (min e₁ e₂)).1 + (decreaseExponent m₂ e₂ (min e₁ e₂)).1) :
    Fits (top + 2) (UnpackedFloat.normalize Format.binary32 m (min e₁ e₂) .positive) := by
  have hlt₁ := decreaseExponent_lt (min e₁ e₂) h₁.1 h₁.2
  have hlt₂ := decreaseExponent_lt (min e₁ e₂) h₂.1 h₂.2
  have hdouble : 2 ^ (24 + ((top - min e₁ e₂).toNat + 1)) = 2 * 2 ^ (24 + (top - min e₁ e₂).toNat) := by
    rw [← Nat.add_assoc, Nat.pow_succ, Nat.mul_comm]
  have hk : min e₁ e₂ + ((top - min e₁ e₂).toNat + 1 : Nat) ≤ top + 1 := by omega
  have hfits := fits_normalize (m := m) .positive (by omega) hk (by omega)
  exact hfits.mono (by omega)

theorem fits_add {f g : UnpackedFloat} {top : Int} (hf : Fits top f) (hg : Fits top g) (htop : -149 ≤ top) :
    Fits (top + 2) (UnpackedFloat.add Format.binary32 f g) := by
  cases f with
  | infinity s₁ | notANumber => exact hf.elim
  | zero s₁ =>
      cases g with
      | infinity s₂ | notANumber => exact hg.elim
      | zero s₂ =>
          simp only [UnpackedFloat.add]
          split <;> trivial
      | finite s₂ m₂ e₂ hm₂ => exact hg.mono (by omega)
  | finite s₁ m₁ e₁ hm₁ =>
      cases g with
      | infinity s₂ | notANumber => exact hg.elim
      | zero s₂ => exact hf.mono (by omega)
      | finite s₂ m₂ e₂ hm₂ =>
          refine fits_together ⟨hf.1, hf.2.2.1⟩ ⟨hg.1, hg.2.2.1⟩ htop ((Int.natAbs_add_le _ _).trans_eq ?_)
          rw [natAbs_apply, natAbs_apply]
          rfl

theorem fits_neg {f : UnpackedFloat} {top : Int} (h : Fits top f) : Fits top f.neg := by
  cases f <;> exact h

theorem apply_neg (s : Sign) (n : Int) : (-s).apply n = -s.apply n := by
  cases s with
  | positive => rfl
  | negative => exact (neg_neg n).symm

/-- To subtract is to add the opposite. -/
theorem sub_eq_add_opposite (f g : UnpackedFloat) :
    UnpackedFloat.sub Format.binary32 f g = UnpackedFloat.add Format.binary32 f g.neg := by
  cases f with
  | finite s₁ m₁ e₁ hm₁ =>
      cases g with
      | finite s₂ m₂ e₂ hm₂ =>
          simp only [UnpackedFloat.sub, UnpackedFloat.add, UnpackedFloat.neg, apply_neg, Int.sub_eq_add_neg]
      | infinity s₂ | notANumber | zero s₂ => rfl
  | infinity s₁ | notANumber | zero s₁ => cases g <;> rfl

theorem fits_sub {f g : UnpackedFloat} {top : Int} (hf : Fits top f) (hg : Fits top g) (htop : -149 ≤ top) :
    Fits (top + 2) (UnpackedFloat.sub Format.binary32 f g) := by
  rw [sub_eq_add_opposite]
  exact fits_add hf (fits_neg hg) htop

/-- A factor with a leading one keeps the product from ending above its last place. -/
theorem fits_mul {f : UnpackedFloat} {s : Sign} {m : Nat} {e top : Int} (hpos : 0 < m) (hf : Fits top f)
    (hm : 2 ^ 23 ≤ m ∧ m < 2 ^ 24) (htop : -173 ≤ top + e) :
    Fits (top + e + 25) (UnpackedFloat.mul Format.binary32 f (.finite s m e hpos)) := by
  cases f with
  | infinity s' | notANumber => exact hf.elim
  | zero s' => trivial
  | finite s' m' e' hpos' =>
      -- The product has twenty-four to forty-eight bits, so that none have to be put behind it.
      have hproduct : m' * m ≠ 0 := (Nat.mul_pos hpos' hpos).ne'
      have hlow : 23 ≤ (m' * m).log2 := (Nat.le_log2 hproduct).2 (by nlinarith)
      have hhigh : (m' * m).log2 < 48 := (Nat.log2_lt hproduct).2 (by nlinarith [hf.1])
      have hlast := lastPlace_eq (m' * m) (e' + e)
      have hbound := hf.2.2.1
      have hfits := fits_round (s' * s) .exact (show e' + e ≤ lastPlace (m' * m) (e' + e) by omega)
        (show lastPlace (m' * m) (e' + e) ≤ top + e + 24 by omega)
      exact hfits.mono (by omega)

/-! ## Opposite numbers -/

theorem Occupies.neg {f : UnpackedFloat} {bits : Nat} (h : Occupies bits f) : Occupies bits f.neg := by
  cases f <;> exact h

theorem Occupies.unique {f : UnpackedFloat} {bits bits' : Nat} (h : Occupies bits f) (h' : Occupies bits' f) :
    bits = bits' := by
  cases f with
  | infinity s | notANumber => exact h.elim
  | zero s => exact h.trans h'.symm
  | finite s m e hm =>
      simp only [Occupies] at h h'
      omega

theorem unpacked_neg {x : Float32} (h : x.isFinite = true) : unpacked (-x) = (unpacked x).neg :=
  unpack_pack (fits_neg (unpacked_spec h).1)

theorem fits_abs {f : UnpackedFloat} {top : Int} (h : Fits top f) : Fits top f.abs := by
  cases f <;> exact h

theorem unpacked_abs {x : Float32} (h : x.isFinite = true) : unpacked x.abs = (unpacked x).abs :=
  unpack_pack (fits_abs (unpacked_spec h).1)

theorem isFinite_neg {x : Float32} (h : x.isFinite = true) : (-x).isFinite = true :=
  isFinite_pack (fits_neg (unpacked_spec h).1)

theorem magnitudeBits_neg {x : Float32} (h : x.isFinite = true) : magnitudeBits (-x) = magnitudeBits x := by
  have hbits := (unpacked_spec (isFinite_neg h)).2
  rw [unpacked_neg h] at hbits
  exact hbits.unique (unpacked_spec h).2.neg

/-! ## Order -/

theorem le_iff {x y : Float32} : x ≤ y ↔ (unpacked x).le (unpacked y) = true :=
  decide_eq_true_iff

theorem lt_iff {x y : Float32} : x < y ↔ (unpacked x).lt (unpacked y) = true :=
  decide_eq_true_iff

theorem compare_swap (f g : UnpackedFloat) : g.compare f = (f.compare g).map Ordering.swap := by
  have hmantissas (m m' : Nat) : compare m' m = (compare m m').swap := Std.OrientedCmp.eq_swap
  have hexponents (e e' : Int) : compare e' e = (compare e e').swap := Std.OrientedCmp.eq_swap
  -- Two numbers of one sign and two infinities are compared by what they are made of; the other rows are constant.
  fun_cases UnpackedFloat.compare f g with
  | case1 => cases g <;> rfl
  | case3 s s' => cases s <;> cases s' <;> rfl
  | case13 m e hm m' e' hm' =>
      simp [UnpackedFloat.compare, hexponents e e', hmantissas m m', Ordering.swap_then]
  | case16 m e hm m' e' hm' =>
      simp [UnpackedFloat.compare, hexponents e e', hmantissas m m', Ordering.swap_then]
  | _ => simp [UnpackedFloat.compare]

theorem isSome_compare {f g : UnpackedFloat} (hf : f.isNaN = false) (hg : g.isNaN = false) :
    (f.compare g).isSome = true := by
  fun_cases UnpackedFloat.compare f g with
  | case1 => cases hf
  | case2 => cases hg
  | _ => rfl

/-- Only NaN cannot be compared. -/
theorem lt_of_not_le {x y : Float32} (hx : x.isNaN = false) (hy : y.isNaN = false) (h : ¬ x ≤ y) : y < x := by
  rw [le_iff, UnpackedFloat.le] at h
  rw [lt_iff, UnpackedFloat.lt, compare_swap (unpacked x)]
  rcases Option.isSome_iff_exists.1 (isSome_compare (f := unpacked x) (g := unpacked y) hx hy) with ⟨o, ho⟩
  rw [ho] at h ⊢
  cases o with
  | gt => rfl
  | lt | eq => exact absurd rfl h

theorem le_of_not_lt {x y : Float32} (hx : x.isNaN = false) (hy : y.isNaN = false) (h : ¬ x < y) : y ≤ x := by
  by_contra hle
  exact h (lt_of_not_le hy hx hle)

/-! ## Whole parts -/

theorem one_le_ofNatClamp {n : Nat} (h : 1 ≤ n) : 1 ≤ UInt32.ofNatClamp n := by
  unfold UInt32.ofNatClamp
  rw [UInt32.le_iff_toNat_le]
  split
  · simpa using h
  · decide

theorem roundToInt_positive (m : Nat) (e : Int) :
    UnpackedFloat.roundToInt .positive m e = ((m * 2 ^ e.toNat / 2 ^ (-e).toNat : Nat) : Int) := by
  have hup : (e - 0).toNat = e.toNat := by omega
  have hdown : (0 - (e - (e.toNat : Int))).toNat = (-e).toNat := by omega
  simp only [UnpackedFloat.roundToInt, decreaseExponent, shiftToExponent, mantissa_shift, hup, hdown, Nat.shiftLeft_eq,
    Sign.apply, ExtendedMantissa.ofMantissaAndAccuracy]

/-- The whole part of a number that is at least one is at least one. -/
theorem one_le_toUInt32 {x : Float32} (h : 1 ≤ x) : 1 ≤ x.toUInt32 := by
  have hle : UnpackedFloat.le (.finite .positive (2 ^ 23) (-23) (by decide)) (unpacked x) = true := le_iff.1 h
  have hfits := fun hfinite => (@unpacked_spec x hfinite).1
  change 1 ≤ (unpacked x).toUInt32
  change (unpacked x).isFinite = true → _ at hfits
  generalize unpacked x = f at *
  cases f with
  | notANumber => cases hle
  | zero s => cases hle
  | infinity s =>
      cases s with
      | negative => cases hle
      | positive => decide
  | finite s m e hm =>
      cases s with
      | negative => cases hle
      | positive =>
          rcases hfits rfl with ⟨hlt, hlow, htop, hform⟩
          -- Numbers of one sign are compared by their exponents first.
          have hexponent : -23 ≤ e := by
            by_contra hless
            simp [UnpackedFloat.le, UnpackedFloat.compare, Int.compare_eq_gt.2 (not_le.1 hless)] at hle
          have hlead : 2 ^ 23 ≤ m := by omega
          refine one_le_ofNatClamp ?_
          rw [UnpackedFloat.toInt, roundToInt_positive, Int.toNat_natCast, Nat.le_div_iff_mul_le (Nat.two_pow_pos _)]
          calc 1 * 2 ^ (-e).toNat
              ≤ 1 * 2 ^ 23 := Nat.mul_le_mul_left _ (Nat.pow_le_pow_right (by decide) (by omega))
            _ ≤ m * 2 ^ 0 := by omega
            _ ≤ m * 2 ^ e.toNat := Nat.mul_le_mul_left _ (Nat.pow_le_pow_right (by decide) (Nat.zero_le _))

end Number
end TurtleLogo
