import TurtleLogo.Proofs.Rounding

/-!
# Angles within a full turn

`wrapAngle` brings an angle into a full turn. It takes the exact remainder, adds a turn if that is negative, and replaces a
sum that was rounded up to a whole turn by zero. What comes out depends on whether the angle is finite:

* `wrapAngle_of_isFinite` — a finite angle becomes one from zero up to, but not including, a full turn;
* `wrapAngle_of_not_isFinite` — an infinite angle and NaN become NaN.

Angles that commands ask for are finite whenever their numbers are (`isFinite_turned`, `isFinite_faced`): a degree is so
small that not even the greatest number of degrees overflows.
-/

namespace TurtleLogo
namespace Number

open Float.Model (Format UnpackedFloat)
open Float.Model.UnpackedFloat (Sign pack unpack roundWithAccuracy decreaseExponent)

/-- An angle from zero up to, but not including, a full turn. -/
def InTurn (angle : Float32) : Prop :=
  0 ≤ angle ∧ angle < fullTurn

theorem unpacked_fullTurn : unpacked fullTurn = .finite .positive 13176795 (-21) (by decide) := rfl

theorem unpacked_quarterTurn : unpacked quarterTurn = .finite .positive 13176795 (-23) (by decide) := rfl

/-! ## Nearest numbers -/

/-- The bits below the sign of the number nearest to a quotient. -/
def nearestBits (num den : Nat) : Nat :=
  let scaled := num * stepsPerOne
  let shift := (scaled / den).log2 - 23
  shift * twoTo 23 + divRoundEven scaled (den * twoTo shift)

theorem nearest_eq (num den : Nat) : nearest num den = ofMagnitudeBits (nearestBits num den) := rfl

theorem divRoundEven_bounds (num den : Nat) :
    num / den ≤ divRoundEven num den ∧ divRoundEven num den ≤ num / den + 1 := by
  have hmod := Nat.mod_lt (num / den) Nat.zero_lt_two
  simp only [divRoundEven]
  split_ifs <;> omega

theorem divRoundEven_mono {num num' : Nat} (den : Nat) (h : num ≤ num') :
    divRoundEven num den ≤ divRoundEven num' den := by
  have hquotient : num / den ≤ num' / den := Nat.div_le_div_right h
  rcases hquotient.lt_or_eq with hlt | heq
  · have hupper := (divRoundEven_bounds num den).2
    have hlower := (divRoundEven_bounds num' den).1
    omega
  · -- With the same quotient the greater number has the greater remainder.
    have hmod : num % den ≤ num' % den := by
      have hnum := Nat.div_add_mod num den
      have hnum' := Nat.div_add_mod num' den
      rw [heq] at hnum
      omega
    simp only [divRoundEven, heq]
    split_ifs <;> omega

/-- The number nearest to a greater quotient is not less. -/
theorem nearestBits_mono {num num' : Nat} (den : Nat) (h : num ≤ num') : nearestBits num den ≤ nearestBits num' den := by
  have hscaled : num * stepsPerOne ≤ num' * stepsPerOne := Nat.mul_le_mul_right _ h
  simp only [nearestBits]
  generalize num * stepsPerOne = scaled at *
  generalize num' * stepsPerOne = scaled' at *
  have hlog : (scaled / den).log2 ≤ (scaled' / den).log2 := by
    rw [Nat.log2_eq_log_two, Nat.log2_eq_log_two]
    exact Nat.log_mono_right (Nat.div_le_div_right hscaled)
  generalize hshift : (scaled / den).log2 - 23 = shift
  generalize hshift' : (scaled' / den).log2 - 23 = shift'
  rcases (show shift ≤ shift' by omega).lt_or_eq with hlt | rfl
  · -- The lesser number has fewer bits. Even if all of them are carried, it does not pass the first one that has more.
    have hupper : divRoundEven scaled (den * twoTo shift) ≤ 2 ^ 24 := by
      have hfew : scaled / (den * twoTo shift) < 2 ^ 24 := by
        rw [← Nat.div_div_eq_div_mul, twoTo, Nat.pow_eq, Nat.div_lt_iff_lt_mul (Nat.two_pow_pos _), ← Nat.pow_add]
        exact Nat.lt_of_lt_of_le Nat.lt_log2_self (Nat.pow_le_pow_right (by decide) (by omega))
      exact (divRoundEven_bounds ..).2.trans hfew
    have hlower : 2 ^ 23 ≤ divRoundEven scaled' (den * twoTo shift') := by
      have hne : scaled' / den ≠ 0 := by
        intro hzero
        simp [hzero] at hshift'
        omega
      have hlead : 2 ^ 23 ≤ scaled' / (den * twoTo shift') := by
        rw [← Nat.div_div_eq_div_mul, twoTo, Nat.pow_eq, Nat.le_div_iff_mul_le (Nat.two_pow_pos _), ← Nat.pow_add]
        exact (Nat.pow_le_pow_right (by decide) (by omega)).trans (Nat.log2_self_le hne)
      exact hlead.trans (divRoundEven_bounds ..).1
    simp only [twoTo, Nat.pow_eq] at *
    omega
  · exact Nat.add_le_add_left (divRoundEven_mono _ hscaled) _

/-! ## Remainders of a full turn -/

/-- What is left of an angle after whole turns is finite and not greater than a turn. -/
theorem rem_fullTurn_spec {angle : Float32} (h : angle.isFinite = true) :
    (rem angle fullTurn).isFinite = true ∧ magnitudeBits (rem angle fullTurn) ≤ magnitudeBits fullTurn := by
  have hturn : magnitudeBits fullTurn < infinityBits ∧
      nearestBits (steps fullTurn) stepsPerOne = magnitudeBits fullTurn ∧ 0 < steps fullTurn := by
    decide
  rcases hturn with ⟨hlt, hbits, hpos⟩
  have hbound : nearestBits (steps angle % steps fullTurn) stepsPerOne ≤ magnitudeBits fullTurn := by
    rw [← hbits]
    exact nearestBits_mono _ (Nat.mod_lt _ hpos).le
  have hmagnitude : magnitudeBits (nearest (steps angle % steps fullTurn) stepsPerOne) =
      nearestBits (steps angle % steps fullTurn) stepsPerOne := by
    rw [nearest_eq, magnitudeBits, toNat_toBits_ofMagnitudeBits (hbound.trans_lt hlt)]
    exact Nat.mod_eq_of_lt ((hbound.trans_lt hlt).trans (by decide))
  have hfinite : (nearest (steps angle % steps fullTurn) stepsPerOne).isFinite = true := by
    rw [isFinite_iff, hmagnitude]
    exact hbound.trans_lt hlt
  have hrem : rem angle fullTurn = withSignOf angle (nearest (steps angle % steps fullTurn) stepsPerOne) := by
    have hconstant : fullTurn.isNaN = false ∧ (fullTurn == 0) = false ∧ fullTurn.isInf = false := by
      decide
    rcases isNaN_isInf_of_isFinite h with ⟨hnan, hinf⟩
    simp only [rem, hnan, hinf, hconstant, Bool.or_self, Bool.false_eq_true, if_false]
  rw [hrem]
  unfold withSignOf
  split
  · rw [magnitudeBits_neg hfinite, hmagnitude]
    exact ⟨isFinite_neg hfinite, hbound⟩
  · rw [hmagnitude]
    exact ⟨hfinite, hbound⟩

theorem nonneg_normalize {m e : Int} (h : 0 ≤ m) :
    UnpackedFloat.le (.zero .positive) (UnpackedFloat.normalize Format.binary32 m e .positive) = true := by
  unfold UnpackedFloat.normalize
  rcases h.lt_or_eq with hpos | rfl
  · rw [Int.compare_eq_gt.2 hpos]
    simp only [UnpackedFloat.round, roundWithAccuracy]
    split <;> rfl
  · rfl

theorem exists_unpacked_of_neg {x : Float32} (h : x.isFinite = true) (hneg : x < 0) :
    ∃ m e hm, unpacked x = .finite .negative m e hm := by
  have hlt : (unpacked x).lt (.zero .positive) = true := lt_iff.1 hneg
  change (unpacked x).isFinite = true at h
  generalize unpacked x = f at *
  cases f with
  | notANumber => cases h
  | infinity s => cases h
  | zero s => cases hlt
  | finite s m e hm =>
      cases s with
      | positive => cases hlt
      | negative => exact ⟨m, e, hm, rfl⟩

/-- A negative remainder is brought back by a turn. -/
theorem nonneg_add_fullTurn {x : Float32} (h : x.isFinite = true) (hbits : magnitudeBits x ≤ magnitudeBits fullTurn)
    (hneg : x < 0) : 0 ≤ x + fullTurn := by
  rcases exists_unpacked_of_neg h hneg with ⟨m, e, hm, hx⟩
  rcases unpacked_spec h with ⟨hfits, hoccupies⟩
  rw [hx] at hfits hoccupies
  rcases hfits with ⟨hlt, hlow, -, hform⟩
  -- The order of bit patterns bounds the exponent and the mantissa at once.
  have hplace : (e + 149) * 2 ^ 23 + m ≤ 128 * 2 ^ 23 + 13176795 := by
    have hturn : magnitudeBits fullTurn = 128 * 2 ^ 23 + 13176795 := by
      decide
    have hoccupied : (e + 149) * 2 ^ 23 + m = magnitudeBits x := hoccupies
    omega
  have he : e ≤ -21 := by omega
  -- The exact sum, counted in units of the last bit of the remainder.
  have hsum : 0 ≤ -((m <<< (e - e).toNat : Nat) : Int) + ((13176795 <<< (-21 - e).toNat : Nat) : Int) := by
    simp only [Nat.shiftLeft_eq, sub_self, Int.toNat_zero, Nat.pow_zero, Nat.mul_one]
    rcases he.lt_or_eq with hless | rfl
    · have hpow : 2 ^ 1 ≤ 2 ^ (-21 - e).toNat := Nat.pow_le_pow_right (by decide) (by omega)
      omega
    · rw [show ((-21 : Int) - -21).toNat = 0 from rfl]
      omega
  have hadd : UnpackedFloat.add Format.binary32 (unpacked x) (unpacked fullTurn) =
      UnpackedFloat.normalize Format.binary32
        (-((m <<< (e - e).toNat : Nat) : Int) + ((13176795 <<< (-21 - e).toNat : Nat) : Int)) e .positive := by
    have hmin : min e (-21) = e := min_eq_left he
    rw [hx, unpacked_fullTurn]
    simp only [UnpackedFloat.add, hmin, decreaseExponent, Sign.apply]
  have hfitsSum : Fits (-19) (UnpackedFloat.add Format.binary32 (unpacked x) (unpacked fullTurn)) := by
    rw [hx, unpacked_fullTurn]
    have hturn : Fits (-21) (.finite .positive 13176795 (-21) (by decide)) := by
      simp only [Fits]
      omega
    exact fits_add (f := .finite .negative m e hm) ⟨hlt, hlow, he, hform⟩ hturn (by decide)
  have hunpacked : unpacked (x + fullTurn) = UnpackedFloat.add Format.binary32 (unpacked x) (unpacked fullTurn) :=
    unpack_pack (hfitsSum.mono (by decide))
  rw [le_iff, hunpacked, hadd]
  exact nonneg_normalize hsum

/-! ## Wrapping -/

theorem isNaN_of_le {x y : Float32} (h : x ≤ y) : y.isNaN = false := by
  rw [le_iff, UnpackedFloat.le] at h
  change (unpacked y).isNaN = false
  generalize unpacked x = f at *
  cases hy : unpacked y with
  | notANumber =>
      rw [hy] at h
      cases f <;> cases h
  | _ => rfl

/-- The last step of wrapping. -/
theorem inTurn_of_nonneg {angle : Float32} (h : 0 ≤ angle) : InTurn (if fullTurn ≤ angle then 0 else angle) := by
  split
  · unfold InTurn
    decide
  · next hless => exact ⟨h, lt_of_not_le (by decide) (isNaN_of_le h) hless⟩

theorem wrapAngle_of_isFinite {angle : Float32} (h : angle.isFinite = true) : InTurn (wrapAngle angle) := by
  rcases rem_fullTurn_spec h with ⟨hfinite, hbits⟩
  refine inTurn_of_nonneg ?_
  split
  · next hneg => exact nonneg_add_fullTurn hfinite hbits hneg
  · next hneg => exact le_of_not_lt (isNaN_isInf_of_isFinite hfinite).1 (by decide) hneg

/-! ## Angles of commands -/

theorem fits_toRadians {degrees : Float32} (h : degrees.isFinite = true) : Fits 100 (unpacked (toRadians degrees)) := by
  have hfits := fits_mul (s := .positive) (m := 9370165) (e := -29) (by decide) (unpacked_spec h).1 (by decide) (by decide)
  have hunpacked : unpacked (toRadians degrees) = UnpackedFloat.mul Format.binary32 (unpacked degrees) (unpacked degree) :=
    unpack_pack (hfits.mono (by decide))
  rw [hunpacked]
  exact hfits

/-- Angles within a turn leave room for those of commands. -/
theorem fits_of_inTurn {angle : Float32} (h : InTurn angle) : Fits 100 (unpacked angle) := by
  have hle : UnpackedFloat.le (.zero .positive) (unpacked angle) = true := le_iff.1 h.1
  have hlt : (unpacked angle).lt (.finite .positive 13176795 (-21) (by decide)) = true := lt_iff.1 h.2
  have hspec := fun hfinite => (@unpacked_spec angle hfinite).1
  change (unpacked angle).isFinite = true → _ at hspec
  generalize unpacked angle = f at *
  cases f with
  | notANumber => cases hle
  | infinity s =>
      cases s with
      | negative => cases hle
      | positive => cases hlt
  | zero s => trivial
  | finite s m e hm =>
      cases s with
      | negative => cases hle
      | positive =>
          rcases hspec rfl with ⟨hm, hlow, -, hform⟩
          -- With a higher exponent it would come after a full turn.
          have he : e ≤ -21 := by
            by_contra hmore
            simp [UnpackedFloat.lt, UnpackedFloat.compare, Int.compare_eq_gt.2 (not_le.1 hmore)] at hlt
          exact ⟨hm, hlow, by omega, hform⟩

theorem isFinite_add {x y : Float32} (hx : Fits 100 (unpacked x)) (hy : Fits 100 (unpacked y)) :
    (x + y).isFinite = true :=
  isFinite_pack ((fits_add hx hy (by decide)).mono (by decide))

theorem isFinite_sub {x y : Float32} (hx : Fits 100 (unpacked x)) (hy : Fits 100 (unpacked y)) :
    (x - y).isFinite = true :=
  isFinite_pack ((fits_sub hx hy (by decide)).mono (by decide))

/-- A turtle that is turned by a finite number of degrees faces a finite angle. -/
theorem isFinite_turned {heading degrees angle : Float32} (hheading : InTurn heading) (hdegrees : degrees.isFinite = true)
    (hangle : angle = toRadians degrees ∨ angle = -toRadians degrees) : (heading + angle).isFinite = true := by
  have hradians := fits_toRadians hdegrees
  rcases hangle with rfl | rfl
  · exact isFinite_add (fits_of_inTurn hheading) hradians
  · refine isFinite_add (fits_of_inTurn hheading) ?_
    rw [unpacked_neg (isFinite_of_fits hradians)]
    exact fits_neg hradians

theorem isFinite_faced {bearing : Float32} (h : bearing.isFinite = true) :
    (quarterTurn - toRadians bearing).isFinite = true := by
  refine isFinite_sub ?_ (fits_toRadians h)
  rw [unpacked_quarterTurn]
  simp only [Fits]
  omega

/-! ## Numbers that are not finite -/

theorem unpacked_of_not_isFinite {x : Float32} (h : x.isFinite = false) :
    unpacked x = .notANumber ∨ ∃ s, unpacked x = .infinity s := by
  change (unpacked x).isFinite = false at h
  cases hx : unpacked x with
  | notANumber => exact .inl rfl
  | infinity s => exact .inr ⟨s, rfl⟩
  | zero s | finite s m e hm =>
      rw [hx] at h
      cases h

theorem not_isFinite_pack {f : UnpackedFloat} (h : f.isFinite = false) :
    (unpack Format.binary32 (pack Format.binary32 f)).isFinite = false := by
  cases f with
  | infinity s => cases s <;> rfl
  | notANumber => rfl
  | zero s => cases h
  | finite s m e hm => cases h

theorem not_isFinite_toRadians {degrees : Float32} (h : degrees.isFinite = false) :
    (toRadians degrees).isFinite = false := by
  refine not_isFinite_pack (f := UnpackedFloat.mul Format.binary32 (unpacked degrees) (unpacked degree)) ?_
  rcases unpacked_of_not_isFinite h with hx | ⟨s, hx⟩ <;> rw [hx] <;> rfl

theorem not_isFinite_neg {x : Float32} (h : x.isFinite = false) : (-x).isFinite = false := by
  refine not_isFinite_pack (f := (unpacked x).neg) ?_
  rcases unpacked_of_not_isFinite h with hx | ⟨s, hx⟩ <;> rw [hx] <;> rfl

theorem not_isFinite_sum (f : UnpackedFloat) {g : UnpackedFloat} (h : g = .notANumber ∨ ∃ s, g = .infinity s) :
    (UnpackedFloat.add Format.binary32 f g).isFinite = false := by
  rcases h with rfl | ⟨s, rfl⟩
  · cases f <;> rfl
  · cases f with
    | infinity s' => cases s <;> cases s' <;> rfl
    | notANumber | zero s' | finite s' m e hm => rfl

theorem not_isFinite_add (x : Float32) {y : Float32} (h : y.isFinite = false) : (x + y).isFinite = false :=
  not_isFinite_pack (not_isFinite_sum (unpacked x) (unpacked_of_not_isFinite h))

theorem not_isFinite_sub (x : Float32) {y : Float32} (h : y.isFinite = false) : (x - y).isFinite = false := by
  refine not_isFinite_pack (f := UnpackedFloat.sub Format.binary32 (unpacked x) (unpacked y)) ?_
  rw [sub_eq_add_opposite]
  refine not_isFinite_sum _ ?_
  rcases unpacked_of_not_isFinite h with hy | ⟨s, hy⟩ <;> rw [hy]
  · exact .inl rfl
  · exact .inr ⟨-s, rfl⟩

theorem wrapAngle_of_not_isFinite {angle : Float32} (h : angle.isFinite = false) : (wrapAngle angle).isNaN = true := by
  have hspecial : angle.isNaN = true ∨ angle.isInf = true := by
    rcases unpacked_of_not_isFinite h with hx | ⟨s, hx⟩
    · exact .inl (congrArg UnpackedFloat.isNaN hx)
    · exact .inr (congrArg UnpackedFloat.isInf hx)
  have hrem : rem angle fullTurn = nan := by
    unfold rem
    rw [if_pos]
    rcases hspecial with hnan | hinf
    · simp only [hnan, Bool.true_or]
    · simp only [hinf, Bool.or_true, Bool.true_or]
  unfold wrapAngle
  rw [hrem]
  decide

end Number
end TurtleLogo
