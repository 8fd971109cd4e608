import TurtleLogo.Proofs.Angles
import TurtleLogo.Proofs.NumberOrder

/-!
# Places of numbers and their sums

All numbers but NaN can be counted from zero upward and downward. The place of a number in this count is made of its bits
below the sign, and both zeros have place zero. On the other hand a finite number has an exact value, which is counted in
steps of `2 ^ -149`. This module follows a sum from the exact values of its parts to the place of the result:

* `rank_le_iff`, `le_iff_place` — numbers come in the order of their places;
* `Approximates`, `place_of_approximates` — the extra bits of a mantissa say enough of a quotient to round it;
* `nearestBits_of_ratio` — it is rounded to the number nearest to it;
* `place_round`, `place_normalize` — so rounding takes a number of steps to the place of the number nearest to it;
* `pack_spec` — packing keeps the place, but for what passes infinity;
* `sum_spec` — the sum of two finite numbers is the one nearest to the sum of their exact values;
* `add_le_add_same` — rounding keeps the order of numbers, and so does adding the same number to two of them;
* `add_negative_zero`, `add_opposite` — the sums that are not rounded at all.
-/

namespace TurtleLogo
namespace Number

open Float.Model (Format UnpackedFloat)
open Float.Model.UnpackedFloat (Sign Accuracy ExtendedMantissa pack unpack packedInfinity shiftToTargetExponent
  roundWithAccuracy decreaseExponent)

/-! ## Places -/

/-- The place of a number among all others, counted from zero. -/
def place : UnpackedFloat → Int
  | .infinity s => s.apply infinityBits
  | .finite s m e _ => s.apply ((e + 149) * 2 ^ 23 + m)
  | .zero _ | .notANumber => 0

/-- How many steps of `2 ^ -149` lead from zero to a finite number. -/
def signedSteps : UnpackedFloat → Int
  | .finite s m e _ => s.apply (m * 2 ^ (e + 149).toNat : Nat)
  | _ => 0

/-- Infinite, or finite and in the form in which the format has it. -/
def Formed : UnpackedFloat → Prop
  | .infinity _ => True
  | f => Fits 104 f

theorem formed_of_fits {f : UnpackedFloat} (h : Fits 104 f) : Formed f := by
  cases f with
  | infinity s => trivial
  | zero s | finite s m e hm | notANumber => exact h

theorem isNaN_of_formed {f : UnpackedFloat} (h : Formed f) : f.isNaN = false := by
  cases f with
  | notANumber => exact h.elim
  | infinity s | zero s | finite s m e hm => rfl

theorem infinityBits_eq : infinityBits = 255 * 2 ^ 23 := rfl

theorem rank_le_iff {f g : UnpackedFloat} (hf : Formed f) (hg : Formed g) : rank f ≤ rank g ↔ place f ≤ place g := by
  cases f with
  | notANumber => exact hf.elim
  | infinity s | zero s =>
      cases g with
      | notANumber => exact hg.elim
      | infinity s' | zero s' =>
          cases s <;> cases s' <;> simp [rank, place, Sign.apply, Prod.Lex.toLex_le_toLex, infinityBits_eq]
      | finite s' m' e' hm' =>
          rcases hg with ⟨hlt', hlow', htop', hform'⟩
          cases s <;> cases s' <;> simp [rank, place, Sign.apply, Prod.Lex.toLex_le_toLex, infinityBits_eq] <;> omega
  | finite s m e hm =>
      rcases hf with ⟨hlt, hlow, htop, hform⟩
      cases g with
      | notANumber => exact hg.elim
      | infinity s' | zero s' =>
          cases s <;> cases s' <;> simp [rank, place, Sign.apply, Prod.Lex.toLex_le_toLex, infinityBits_eq] <;> omega
      | finite s' m' e' hm' =>
          -- A greater exponent has a leading one, which is worth more than all bits below it.
          rcases hg with ⟨hlt', hlow', htop', hform'⟩
          cases s <;> cases s' <;> simp [rank, place, Sign.apply, Prod.Lex.toLex_le_toLex] <;> omega

theorem le_iff_place {x y : Float32} (hx : Formed (unpacked x)) (hy : Formed (unpacked y)) :
    x ≤ y ↔ place (unpacked x) ≤ place (unpacked y) := by
  rw [le_iff_rank, ← rank_le_iff hx hy]
  exact ⟨fun h => h.2.2, fun h => ⟨isNaN_of_formed hx, isNaN_of_formed hy, h⟩⟩

/-- Each place but that of the zeros belongs to one number. -/
theorem signedSteps_eq_of_place_eq {f g : UnpackedFloat} (hf : Fits 104 f) (hg : Fits 104 g) (h : place f = place g) :
    signedSteps f = signedSteps g := by
  cases f with
  | infinity s | notANumber => exact hf.elim
  | zero s =>
      cases g with
      | infinity s' | notANumber => exact hg.elim
      | zero s' => rfl
      | finite s' m' e' hm' =>
          have hlow' := hg.2.1
          cases s' <;> simp only [place, Sign.apply] at h <;> omega
  | finite s m e hm =>
      rcases hf with ⟨hlt, hlow, htop, hform⟩
      cases g with
      | infinity s' | notANumber => exact hg.elim
      | zero s' => cases s <;> simp only [place, Sign.apply] at h <;> omega
      | finite s' m' e' hm' =>
          rcases hg with ⟨hlt', hlow', htop', hform'⟩
          have hsame : s = s' ∧ m = m' ∧ e = e' := by
            cases s <;> cases s' <;> simp only [place, Sign.apply, true_and, reduceCtorEq, false_and] at h ⊢ <;> omega
          rcases hsame with ⟨rfl, rfl, rfl⟩
          rfl

/-! ## Rounding mantissas -/

theorem divRoundEven_mul_right (num den : Nat) {k : Nat} (hk : 0 < k) :
    divRoundEven (num * k) (den * k) = divRoundEven num den := by
  have hhalf : 2 * (num % den * k) = 2 * (num % den) * k := by rw [Nat.mul_assoc]
  simp only [divRoundEven, Nat.mul_div_mul_right _ _ hk, Nat.mul_mod_mul_right, hhalf, Nat.mul_lt_mul_right hk]

theorem divRoundEven_congr {num den num' den' : Nat} (hden : 0 < den) (hden' : 0 < den') (h : num * den' = num' * den) :
    divRoundEven num den = divRoundEven num' den' := by
  rw [← divRoundEven_mul_right num den hden', h, Nat.mul_comm den den', divRoundEven_mul_right num' den' hden]

/-- What the two extra bits of a mantissa say of the fraction that it lacks: whether this is at least one half, and whether it
is anything else than nothing or one half. -/
structure Approximates (em : ExtendedMantissa) (num den : Nat) : Prop where
  mantissa : em.mantissa = num / den
  roundBit : em.roundBit = decide (den ≤ 2 * (num % den))
  stickyBit : em.stickyBit = decide (2 * (num % den) ≠ 0 ∧ 2 * (num % den) ≠ den)

theorem approximates_exact (m : Nat) : Approximates (ExtendedMantissa.ofMantissaAndAccuracy m .exact) m 1 := by
  constructor <;> simp [ExtendedMantissa.ofMantissaAndAccuracy, Nat.mod_one]

namespace Approximates

variable {em : ExtendedMantissa} {num den : Nat}

theorem shiftRightOne (h : Approximates em num den) (hden : 0 < den) : Approximates em.shiftRightOne num (den * 2) := by
  rcases h with ⟨hmantissa, hround, hsticky⟩
  -- The bit that goes out next is the last one of the quotient.
  have hmod : num % (den * 2) = num % den + den * (num / den % 2) := Nat.mod_mul
  have hlt := Nat.mod_lt num hden
  constructor
  · rw [ExtendedMantissa.shiftRightOne, hmantissa, Nat.div_div_eq_div_mul]
  · rw [ExtendedMantissa.shiftRightOne, hmantissa, hmod, Bool.eq_iff_iff]
    simp only [bne_iff_ne, decide_eq_true_eq]
    rcases Nat.mod_two_eq_zero_or_one (num / den) with hbit | hbit <;> rw [hbit] <;> omega
  · rw [ExtendedMantissa.shiftRightOne, hround, hsticky, hmod, Bool.eq_iff_iff]
    simp only [Bool.or_eq_true, decide_eq_true_eq]
    rcases Nat.mod_two_eq_zero_or_one (num / den) with hbit | hbit <;> rw [hbit] <;> omega

theorem shift (h : Approximates em num den) (hden : 0 < den) (k : Nat) : Approximates (em >>> k) num (den * 2 ^ k) := by
  change Approximates (Nat.repeat ExtendedMantissa.shiftRightOne k em) num (den * 2 ^ k)
  induction k with
  | zero => simpa [Nat.repeat] using h
  | succ k ih =>
      rw [Nat.repeat, Nat.pow_succ, ← Nat.mul_assoc]
      exact ih.shiftRightOne (Nat.mul_pos hden (Nat.two_pow_pos k))

theorem roundedMantissa (h : Approximates em num den) (hden : 0 < den) : em.roundedMantissa = divRoundEven num den := by
  rcases em with ⟨mantissa, roundBit, stickyBit⟩
  rcases h with ⟨hmantissa, hround, hsticky⟩
  simp only at hmantissa hround hsticky
  subst hmantissa
  cases roundBit <;> cases stickyBit <;>
    simp only [ExtendedMantissa.roundedMantissa, ExtendedMantissa.accuracy, Accuracy.roundToNearestEven, divRoundEven] <;>
    simp only [Bool.false_eq, Bool.true_eq, decide_eq_true_eq, decide_eq_false_iff_not] at hround hsticky <;>
    split_ifs <;> omega

end Approximates

/-! ## Rounding numbers -/

theorem log2_div_two_pow (n k : Nat) : (n / 2 ^ k).log2 = n.log2 - k := by
  rw [Nat.log2_eq_log_two, Nat.log2_eq_log_two, Nat.log_div_base_pow]

theorem log2_shifted_div {num den : Nat} (t : Nat) (h : 0 < num / den) : (num * 2 ^ t / den).log2 = (num / den).log2 + t := by
  have hwhole : num * 2 ^ t / den / 2 ^ t = num / den := by
    rw [Nat.div_div_eq_div_mul, Nat.mul_div_mul_right _ _ (Nat.two_pow_pos t)]
  have hle : 2 ^ t ≤ num * 2 ^ t / den := by
    rw [← hwhole] at h
    exact (Nat.div_pos_iff.1 h).2
  have ht : t ≤ (num * 2 ^ t / den).log2 := (Nat.le_log2 (Nat.two_pow_pos t |>.trans_le hle).ne').2 hle
  rw [← hwhole, log2_div_two_pow]
  omega

/-- The bits of the number nearest to a quotient, counted from the last place of the whole part of an equal one. -/
theorem nearestBits_of_ratio {num den num' den' : Nat} {e : Int} (hden : 0 < den) (hden' : 0 < den')
    (hratio : num' * stepsPerOne * (den * 2 ^ (-(e + 149)).toNat) = num * 2 ^ (e + 149).toNat * den')
    (hwhole : e ≤ -149 ∨ 0 < num / den) (he : e ≤ lastPlace (num / den) e) :
    (nearestBits num' den' : Int) = (lastPlace (num / den) e + 149) * 2 ^ 23 +
      divRoundEven num (den * 2 ^ (lastPlace (num / den) e - e).toNat) := by
  have hlast := lastPlace_eq (num / den) e
  -- One of the two powers is one.
  generalize ht : (e + 149).toNat = t at hratio
  generalize hu : (-(e + 149)).toNat = u at hratio
  have hquotient : num' * stepsPerOne / den' = num * 2 ^ t / (den * 2 ^ u) := by
    have hpos : 0 < den * 2 ^ u := Nat.mul_pos hden (Nat.two_pow_pos u)
    rw [← Nat.mul_div_mul_right _ den' hpos, hratio, Nat.mul_comm den', Nat.mul_div_mul_right _ _ hden']
  have hlog : (num * 2 ^ t / (den * 2 ^ u)).log2 = (num / den).log2 + t - u := by
    rcases le_or_gt e (-149) with hlow | hhigh
    · rw [show t = 0 by omega, Nat.pow_zero, Nat.mul_one, ← Nat.div_div_eq_div_mul, log2_div_two_pow, Nat.add_zero]
    · rw [show u = 0 by omega, Nat.pow_zero, Nat.mul_one, log2_shifted_div t (hwhole.resolve_left hhigh.not_ge), Nat.sub_zero]
  have hshift : (num' * stepsPerOne / den').log2 - 23 = (lastPlace (num / den) e + 149).toNat := by
    rw [hquotient, hlog]
    omega
  have hpow : 2 ^ (lastPlace (num / den) e - e).toNat * 2 ^ t = 2 ^ u * 2 ^ (lastPlace (num / den) e + 149).toNat := by
    rw [← Nat.pow_add, ← Nat.pow_add]
    congr 1
    omega
  have hsame : num' * stepsPerOne * (den * 2 ^ (lastPlace (num / den) e - e).toNat) =
      num * (den' * 2 ^ (lastPlace (num / den) e + 149).toNat) := by
    refine Nat.eq_of_mul_eq_mul_right (Nat.two_pow_pos t) ?_
    linear_combination (num' * stepsPerOne * den) * hpow + 2 ^ (lastPlace (num / den) e + 149).toNat * hratio
  have hbits : nearestBits num' den' = (lastPlace (num / den) e + 149).toNat * 2 ^ 23 +
      divRoundEven (num' * stepsPerOne) (den' * 2 ^ (lastPlace (num / den) e + 149).toNat) := by
    rw [← hshift]
    rfl
  rw [hbits, divRoundEven_congr (Nat.mul_pos hden' (Nat.two_pow_pos _)) (Nat.mul_pos hden (Nat.two_pow_pos _)) hsame]
  push_cast
  omega

/-- The same for a whole number of steps. -/
theorem nearestBits_of_le {m : Nat} {e : Int} (hm : 0 < m) (hlow : -149 ≤ e) (he : e ≤ lastPlace m e) :
    (nearestBits (m * 2 ^ (e + 149).toNat) stepsPerOne : Int) =
      (lastPlace m e + 149) * 2 ^ 23 + divRoundEven m (2 ^ (lastPlace m e - e).toNat) := by
  have hratio : m * 2 ^ (e + 149).toNat * stepsPerOne * (1 * 2 ^ (-(e + 149)).toNat) =
      m * 2 ^ (e + 149).toNat * stepsPerOne := by
    rw [show (-(e + 149)).toNat = 0 by omega, Nat.pow_zero, Nat.one_mul, Nat.mul_one]
  have hbits := nearestBits_of_ratio (e := e) Nat.one_pos (by decide) hratio (.inr (by rwa [Nat.div_one]))
    (by rwa [Nat.div_one])
  rwa [Nat.div_one, Nat.one_mul] at hbits
/-- The second shift of a rounding, which only a carry makes necessary, does not move the place. -/
theorem carried_spec {r : Nat} {last : Int} (hpos : 0 < r) (hr : r ≤ 2 ^ 24) (hlow : -149 ≤ last) :
    (shiftToTargetExponent Format.binary32 r last .exact).1.mantissa ≠ 0 ∧
      ((shiftToTargetExponent Format.binary32 r last .exact).2 + 149) * 2 ^ 23 +
        ((shiftToTargetExponent Format.binary32 r last .exact).1.mantissa : Int) = (last + 149) * 2 ^ 23 + r := by
  rcases hr.lt_or_eq with hlt | rfl
  · rw [shiftToTargetExponent_of_lt hlt hlow]
    exact ⟨hpos.ne', rfl⟩
  · have hcarry : lastPlace (2 ^ 24) last = last + 1 := by
      rw [lastPlace_eq, Nat.log2_two_pow]
      omega
    rcases shiftToTargetExponent_spec (m := 2 ^ 24) (e := last) .exact (by omega) with ⟨hplace, hquotient⟩
    rw [hplace, hquotient, hcarry, show (last + 1 - last).toNat = 1 by omega]
    omega

theorem place_roundWithAccuracy {m : Nat} {e : Int} (s : Sign) (accuracy : Accuracy) (he : e ≤ lastPlace m e) :
    place (roundWithAccuracy Format.binary32 s m e accuracy) =
      s.apply ((lastPlace m e + 149) * 2 ^ 23 + (shiftToTargetExponent Format.binary32 m e accuracy).1.roundedMantissa) := by
  rcases roundedMantissa_spec accuracy he with ⟨hform, hhigh⟩
  have hlast := lastPlace_eq m e
  simp only [roundWithAccuracy]
  rw [(shiftToTargetExponent_spec accuracy he).1]
  generalize (shiftToTargetExponent Format.binary32 m e accuracy).1.roundedMantissa = r at *
  rcases Nat.eq_zero_or_pos r with rfl | hpos
  · -- Nothing is left of a mantissa only if its last place is the lowest.
    have hlowest : lastPlace m e = -149 := by omega
    rw [hlowest, shiftToTargetExponent_of_lt (by decide) (by decide)]
    cases s <;> rfl
  · rcases carried_spec hpos hhigh (show -149 ≤ lastPlace m e by omega) with ⟨hne, hcarried⟩
    rw [dif_neg hne, ← hcarried]
    rfl

/-- The place of a rounded quotient, counted from the last place of its whole part. -/
theorem place_of_approximates {num den : Nat} {e : Int} (s : Sign) (accuracy : Accuracy) (hden : 0 < den)
    (h : Approximates (ExtendedMantissa.ofMantissaAndAccuracy (num / den) accuracy) num den)
    (he : e ≤ lastPlace (num / den) e) :
    place (roundWithAccuracy Format.binary32 s (num / den) e accuracy) =
      s.apply ((lastPlace (num / den) e + 149) * 2 ^ 23 +
        divRoundEven num (den * 2 ^ (lastPlace (num / den) e - e).toNat)) := by
  have hrounded : (shiftToTargetExponent Format.binary32 (num / den) e accuracy).1.roundedMantissa =
      divRoundEven num (den * 2 ^ (lastPlace (num / den) e - e).toNat) :=
    (h.shift hden _).roundedMantissa (Nat.mul_pos hden (Nat.two_pow_pos _))
  rw [place_roundWithAccuracy s accuracy he, hrounded]

theorem place_round {n : Nat} {e : Int} (s : Sign) (hn : 0 < n) (hlow : -149 ≤ e) :
    place (UnpackedFloat.round Format.binary32 s n e) = s.apply (nearestBits (n * 2 ^ (e + 149).toNat) stepsPerOne) := by
  have hlast := lastPlace_eq n e
  -- Zeros are put behind a number that ends above its last place.
  generalize hk : (e - lastPlace n e).toNat = k
  have hshifted := lastPlace_shiftLeft hn.ne' e k
  have hpos : 0 < n <<< k := by
    rw [Nat.shiftLeft_eq]
    exact Nat.mul_pos hn (Nat.two_pow_pos k)
  have hsteps : n <<< k * 2 ^ (e - k + 149).toNat = n * 2 ^ (e + 149).toNat := by
    rw [Nat.shiftLeft_eq, Nat.mul_assoc, ← Nat.pow_add]
    congr 2
    omega
  have hplace := place_of_approximates (e := e - k) s .exact Nat.one_pos
    (by rw [Nat.div_one]; exact approximates_exact (n <<< k)) (by rw [Nat.div_one]; omega)
  rw [Nat.div_one, Nat.one_mul, ← nearestBits_of_le hpos (by omega) (by omega), hsteps] at hplace
  rw [← hplace, ← hk]
  rfl

/-- The place of the number nearest to a quotient, if there were no greatest one. -/
def nearestPlace (z : Int) (den : Nat) : Int :=
  if z < 0 then -nearestBits z.natAbs den else nearestBits z.natAbs den

theorem nearestPlace_zero (den : Nat) : nearestPlace 0 den = 0 := by
  simp [nearestPlace, nearestBits, divRoundEven]

theorem nearestPlace_apply (s : Sign) (n den : Nat) : nearestPlace (s.apply n) den = s.apply (nearestBits n den) := by
  cases s with
  | positive => rw [Sign.apply, Sign.apply, nearestPlace, if_neg (by omega), Int.natAbs_natCast]
  | negative =>
      rcases Nat.eq_zero_or_pos n with rfl | hn
      · simp [Sign.apply, nearestPlace, nearestBits, divRoundEven]
      · rw [Sign.apply, Sign.apply, nearestPlace, if_pos (by omega), Int.natAbs_neg, Int.natAbs_natCast]

theorem nearestPlace_mono {z z' : Int} (den : Nat) (h : z ≤ z') : nearestPlace z den ≤ nearestPlace z' den := by
  unfold nearestPlace
  split_ifs with hneg hneg'
  · have hbits := nearestBits_mono den (show z'.natAbs ≤ z.natAbs by omega)
    omega
  · omega
  · omega
  · have hbits := nearestBits_mono den (show z.natAbs ≤ z'.natAbs by omega)
    omega

/-- The place of the number nearest to so many steps, if there were no greatest one. -/
def roundedPlace (z : Int) : Int :=
  if z < 0 then -nearestBits z.natAbs stepsPerOne else nearestBits z.natAbs stepsPerOne

theorem roundedPlace_zero : roundedPlace 0 = 0 :=
  nearestPlace_zero stepsPerOne

theorem roundedPlace_apply (s : Sign) (n : Nat) : roundedPlace (s.apply n) = s.apply (nearestBits n stepsPerOne) :=
  nearestPlace_apply s n stepsPerOne

theorem roundedPlace_mono {z z' : Int} (h : z ≤ z') : roundedPlace z ≤ roundedPlace z' :=
  nearestPlace_mono stepsPerOne h

/-- A number is the one nearest to itself. -/
theorem roundedPlace_signedSteps {f : UnpackedFloat} (h : Fits 104 f) : roundedPlace (signedSteps f) = place f := by
  cases f with
  | infinity s | notANumber => exact h.elim
  | zero s => exact roundedPlace_zero
  | finite s m e hm =>
      rcases h with ⟨hlt, hlow, -, hform⟩
      have hlog : m.log2 < 24 := (Nat.log2_lt hm.ne').2 hlt
      have hlead : 2 ^ 23 ≤ m → 23 ≤ m.log2 := (Nat.le_log2 hm.ne').2
      have hlast : lastPlace m e = e := by
        rw [lastPlace_eq]
        omega
      have hbits := nearestBits_of_le hm hlow hlast.ge
      rw [hlast, Int.sub_self, Int.toNat_zero, Nat.pow_zero] at hbits
      have hone : divRoundEven m 1 = m := by simpa using divRoundEven_mul (a := m) Nat.one_pos
      rw [signedSteps, roundedPlace_apply, hbits, hone, place]

/-- The place that a number is left with, since whatever passes infinity is infinity. -/
def clamped (p : Int) : Int :=
  max (-(infinityBits : Int)) (min p infinityBits)

theorem clamped_mono {p q : Int} (h : p ≤ q) : clamped p ≤ clamped q := by
  unfold clamped
  omega

theorem pack_spec {f : UnpackedFloat} {top : Int} (h : Fits top f) :
    Formed (unpack Format.binary32 (pack Format.binary32 f)) ∧
      place (unpack Format.binary32 (pack Format.binary32 f)) = clamped (place f) := by
  cases f with
  | infinity s | notANumber => exact h.elim
  | zero s =>
      rw [unpack_pack (f := .zero s) trivial]
      exact ⟨trivial, rfl⟩
  | finite s m e hm =>
      rcases h with ⟨hlt, hlow, -, hform⟩
      rcases lt_or_ge 104 e with hlarge | hsmall
      · have hbias : (e + (Format.binary32.exponentBias : Int) + (23 : Nat)).toNat = (e + 150).toNat := by
          simp only [Format.exponentBias]
          omega
        have hinfinite : pack Format.binary32 (.finite s m e hm) = packedInfinity Format.binary32 s := by
          have hfield : 2 ^ 8 ≤ (e + 150).toNat + 1 := by omega
          simp only [pack, hbias, if_pos hfield]
        have hunpack : unpack Format.binary32 (packedInfinity Format.binary32 s) = .infinity s := by
          cases s <;> rfl
        rw [hinfinite, hunpack]
        refine ⟨trivial, ?_⟩
        cases s <;> simp only [place, clamped, Sign.apply, infinityBits_eq] <;> omega
      · have hfits : Fits 104 (.finite s m e hm) := ⟨hlt, hlow, hsmall, hform⟩
        rw [unpack_pack hfits]
        refine ⟨hfits, ?_⟩
        cases s <;> simp only [place, clamped, Sign.apply, infinityBits_eq] <;> omega

/-! ## Sums -/

theorem apply_mul (s : Sign) (a b : Int) : s.apply (a * b) = s.apply a * b := by
  cases s <;> simp [Sign.apply]

theorem place_normalize (m : Int) {e : Int} (hlow : -149 ≤ e) :
    place (UnpackedFloat.normalize Format.binary32 m e .positive) = roundedPlace (m * 2 ^ (e + 149).toNat) := by
  have hround (s : Sign) (n : Nat) (hn : 0 < n) :
      place (UnpackedFloat.round Format.binary32 s n e) = roundedPlace (s.apply n * 2 ^ (e + 149).toNat) := by
    rw [place_round s hn hlow, ← roundedPlace_apply, ← apply_mul]
    push_cast
    rfl
  unfold UnpackedFloat.normalize
  rcases lt_trichotomy m 0 with hneg | rfl | hpos
  · rw [Int.compare_eq_lt.2 hneg]
    have happly : Sign.negative.apply ((-m).toNat : Int) = m := by
      simp only [Sign.apply]
      omega
    simpa only [happly] using hround .negative (-m).toNat (by omega)
  · rw [Int.zero_mul, roundedPlace_zero]
    rfl
  · rw [Int.compare_eq_gt.2 hpos]
    have happly : Sign.positive.apply (m.toNat : Int) = m := by
      simp only [Sign.apply]
      omega
    simpa only [happly] using hround .positive m.toNat (by omega)

/-- A mantissa counted in units of a lower exponent has the same number of steps. -/
theorem apply_decreaseExponent (s : Sign) (m : Nat) {e low : Int} (hlow : -149 ≤ low) (he : low ≤ e) :
    s.apply ((decreaseExponent m e low).1 : Int) * 2 ^ (low + 149).toNat = s.apply (m * 2 ^ (e + 149).toNat : Nat) := by
  have hpow : 2 ^ (e + 149).toNat = 2 ^ (e - low).toNat * 2 ^ (low + 149).toNat := by
    rw [← Nat.pow_add]
    congr 1
    omega
  simp only [decreaseExponent, Nat.shiftLeft_eq]
  rw [hpow, ← Nat.mul_assoc, ← apply_mul]
  push_cast
  rfl

theorem place_add {f g : UnpackedFloat} (hf : Fits 104 f) (hg : Fits 104 g) :
    place (UnpackedFloat.add Format.binary32 f g) = roundedPlace (signedSteps f + signedSteps g) := by
  cases f with
  | infinity s | notANumber => exact hf.elim
  | zero s =>
      cases g with
      | infinity s' | notANumber => exact hg.elim
      | zero s' => cases s <;> cases s' <;> exact roundedPlace_zero.symm
      | finite s' m' e' hm' =>
          rw [show signedSteps (.zero s) = 0 from rfl, Int.zero_add, roundedPlace_signedSteps hg]
          rfl
  | finite s m e hm =>
      cases g with
      | infinity s' | notANumber => exact hg.elim
      | zero s' =>
          rw [show signedSteps (.zero s') = 0 from rfl, Int.add_zero, roundedPlace_signedSteps hf]
          rfl
      | finite s' m' e' hm' =>
          have hlow : -149 ≤ min e e' := le_min hf.2.1 hg.2.1
          rw [signedSteps, signedSteps, ← apply_decreaseExponent s m hlow (min_le_left e e'),
            ← apply_decreaseExponent s' m' hlow (min_le_right e e'), ← Int.add_mul, ← place_normalize _ hlow]
          rfl

section

variable {x y z : Float32}

theorem formed_of_isFinite (h : x.isFinite = true) : Formed (unpacked x) :=
  formed_of_fits (unpacked_spec h).1

theorem sum_spec (hx : x.isFinite = true) (hy : y.isFinite = true) :
    Formed (unpacked (x + y)) ∧
      place (unpacked (x + y)) = clamped (roundedPlace (signedSteps (unpacked x) + signedSteps (unpacked y))) := by
  have hfitsX := (unpacked_spec hx).1
  have hfitsY := (unpacked_spec hy).1
  rw [← place_add hfitsX hfitsY]
  exact pack_spec (fits_add hfitsX hfitsY (by decide))

theorem signedSteps_le_iff (hx : x.isFinite = true) (hy : y.isFinite = true) :
    signedSteps (unpacked x) ≤ signedSteps (unpacked y) ↔ x ≤ y := by
  have hfitsX := (unpacked_spec hx).1
  have hfitsY := (unpacked_spec hy).1
  rw [le_iff_place (formed_of_isFinite hx) (formed_of_isFinite hy), ← roundedPlace_signedSteps hfitsX,
    ← roundedPlace_signedSteps hfitsY]
  refine ⟨roundedPlace_mono, fun hle => ?_⟩
  -- Where the order of the steps was reversed, the places would be the same.
  by_contra hless
  have hge := roundedPlace_mono (not_le.1 hless).le
  rw [roundedPlace_signedSteps hfitsX, roundedPlace_signedSteps hfitsY] at hle hge
  exact hless (signedSteps_eq_of_place_eq hfitsX hfitsY (le_antisymm hle hge)).le

theorem add_le_add_same (hx : x.isFinite = true) (hy : y.isFinite = true) (hz : z.isFinite = true) (h : x ≤ y) :
    x + z ≤ y + z := by
  rcases sum_spec hx hz with ⟨hformed, hplace⟩
  rcases sum_spec hy hz with ⟨hformed', hplace'⟩
  rw [le_iff_place hformed hformed', hplace, hplace']
  exact clamped_mono (roundedPlace_mono (Int.add_le_add_right ((signedSteps_le_iff hx hy).2 h) _))

end

/-! ## Exact sums -/

theorem eq_of_toBitVec {x y : Float32} (h : x.toBits.toBitVec = y.toBits.toBitVec) : x = y :=
  Float32.toBits_inj.1 (UInt32.toBitVec_inj.1 h)

theorem pack_unpacked (x : Float32) : pack Format.binary32 (unpacked x) = x.toBits.toBitVec :=
  UnpackedFloat.pack_unpack_of_valid x.toModel.valid

/-- The negative zero changes nothing, not even the sign of a zero. -/
theorem add_negative_zero (x : Float32) : x + -0 = x := by
  have hzero : unpacked (-0) = .zero .negative := by rfl
  have hsum (f : UnpackedFloat) : UnpackedFloat.add Format.binary32 f (.zero .negative) = f := by
    cases f with
    | zero s => cases s <;> rfl
    | infinity s | finite s m e hm | notANumber => rfl
  refine eq_of_toBitVec ?_
  change pack Format.binary32 (UnpackedFloat.add Format.binary32 (unpacked x) (unpacked (-0))) = _
  rw [hzero, hsum, pack_unpacked]

/-- A number and its opposite make the positive zero. -/
theorem add_opposite {x : Float32} (h : x.isFinite = true) : x + -x = 0 := by
  have hsum {f : UnpackedFloat} (hf : Fits 104 f) : UnpackedFloat.add Format.binary32 f f.neg = .zero .positive := by
    cases f with
    | infinity s | notANumber => exact hf.elim
    | zero s => cases s <;> rfl
    | finite s m e hm =>
        simp only [UnpackedFloat.neg, UnpackedFloat.add, apply_neg, Int.add_right_neg]
        rfl
  refine eq_of_toBitVec ?_
  change pack Format.binary32 (UnpackedFloat.add Format.binary32 (unpacked x) (unpacked (-x))) = _
  rw [unpacked_neg h, hsum (unpacked_spec h).1]
  rfl

theorem sub_eq_add (x : Float32) {y : Float32} (h : y.isFinite = true) : x - y = x + -y := by
  refine eq_of_toBitVec ?_
  change pack Format.binary32 (UnpackedFloat.sub Format.binary32 (unpacked x) (unpacked y)) =
    pack Format.binary32 (UnpackedFloat.add Format.binary32 (unpacked x) (unpacked (-y)))
  rw [unpacked_neg h, sub_eq_add_opposite]

end Number
end TurtleLogo
