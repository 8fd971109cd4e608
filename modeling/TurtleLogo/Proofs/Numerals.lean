import Mathlib
import TurtleLogo.Language.Segment
import TurtleLogo.Number.Decimal

/-!
# Numerals read back

The text of a finite number is read back as that number. Three things come together:

* the library's numbers are bit patterns, and absolute values and finiteness can be told from the bits below the sign
  (`toNat_toBits_abs`, `isFinite_iff`);
* the quotient that a number is in steps of `2 ^ -149` is rounded to the number itself (`nearest_steps`), so that its exact
  decimal expansion reads back;
* the positional digits of a decimal are read as the value of the decimal (`Decimal.read?_chars`).

`read?_chars` and `exists_chars` say what follows for the text of a number without a sign, `chars_eq` what a sign adds.
-/

namespace TurtleLogo
namespace Number

open Float.Model (Format UnpackedFloat)
open Float.Model.UnpackedFloat (Sign unpackMantissa unpackExponent unpackSign packComponents pack unpack)

/-! ## Fields of bit patterns -/

theorem toNat_unpackMantissa (b : BitVec 32) :
    (@unpackMantissa Format.binary32 b).toNat = b.toNat % twoTo 23 := by
  simp [unpackMantissa, twoTo]

theorem toNat_unpackExponent (b : BitVec 32) :
    (@unpackExponent Format.binary32 b).toNat = b.toNat / twoTo 23 % twoTo 8 := by
  simp [unpackExponent, twoTo, Nat.shiftRight_eq_div_pow]

theorem toNat_packComponents_positive (exponent : BitVec 8) (mantissa : BitVec 23) :
    (packComponents Format.binary32 .positive exponent mantissa).toNat =
      exponent.toNat * twoTo 23 + mantissa.toNat := by
  have hexponent := exponent.isLt
  have hmantissa := mantissa.isLt
  simp only [packComponents, BitVec.toNat_append]
  rw [← Nat.shiftLeft_add_eq_or_of_lt hmantissa, ← Nat.shiftLeft_add_eq_or_of_lt hexponent]
  simp [Nat.shiftLeft_eq, Sign.toBitVec, twoTo]

theorem unpackExponent_eq_iff (b : BitVec 32) :
    @unpackExponent Format.binary32 b = -1#8 ↔ infinityBits ≤ b.toNat % twoTo 31 := by
  have hexponent := toNat_unpackExponent b
  have hlt := b.isLt
  rw [← BitVec.toNat_inj, hexponent]
  have hall : (-1#8).toNat = 255 := by decide
  rw [hall]
  simp only [infinityBits, twoTo, Nat.pow_eq]
  omega

theorem isFinite_unpack_iff (b : BitVec 32) :
    (unpack Format.binary32 b).isFinite = true ↔ b.toNat % twoTo 31 < infinityBits := by
  rw [← Nat.not_le, ← unpackExponent_eq_iff]
  by_cases hexponent : @unpackExponent Format.binary32 b = -1#8
  · simp only [unpack, if_pos hexponent]
    split <;> exact iff_of_false Bool.false_ne_true (not_not_intro hexponent)
  · simp only [unpack, if_neg hexponent]
    split
    · split <;> exact iff_of_true rfl hexponent
    · exact iff_of_true rfl hexponent

/-- The bit pattern without its sign. -/
def unsignedBits (b : BitVec 32) : BitVec 32 :=
  packComponents Format.binary32 .positive (unpackExponent b) (unpackMantissa b)

theorem toNat_unsignedBits (b : BitVec 32) : (unsignedBits b).toNat = b.toNat % twoTo 31 := by
  rw [unsignedBits, toNat_packComponents_positive, toNat_unpackExponent, toNat_unpackMantissa]
  simp only [twoTo, Nat.pow_eq]
  omega

theorem unpack_unsignedBits (b : BitVec 32) :
    unpack Format.binary32 (unsignedBits b) = (unpack Format.binary32 b).abs := by
  have hexponent : @unpackExponent Format.binary32 (unsignedBits b) = @unpackExponent Format.binary32 b :=
    UnpackedFloat.unpackExponent_packComponents
  have hmantissa : @unpackMantissa Format.binary32 (unsignedBits b) = @unpackMantissa Format.binary32 b :=
    UnpackedFloat.unpackMantissa_packComponents
  have hsign : Sign.ofBitVec (@unpackSign Format.binary32 (unsignedBits b)) = .positive :=
    (congrArg Sign.ofBitVec (UnpackedFloat.unpackSign_packComponents ..)).trans (Sign.ofBitVec_toBitVec .positive)
  simp only [unpack, hexponent, hmantissa, hsign]
  repeat' split
  all_goals rfl

/-- The bit pattern of a finite number is packed again as it was. -/
theorem pack_unpack_of_lt {b : BitVec 32} (h : b.toNat % twoTo 31 < infinityBits) :
    pack Format.binary32 (unpack Format.binary32 b) = b := by
  have hexponent : @unpackExponent Format.binary32 b ≠ -1#8 := by
    rw [Ne, unpackExponent_eq_iff, Nat.not_le]
    exact h
  -- The patterns that are not kept are those of NaN, which are all packed as one.
  have hnan : @UnpackedFloat.isNaNBits Format.binary32 b = false := by
    simp only [UnpackedFloat.isNaNBits, decide_eq_false_iff_not, not_and]
    exact fun hall => absurd hall hexponent
  have hpacked := @UnpackedFloat.pack_unpack Format.binary32 b (by decide)
  rwa [hnan, if_neg Bool.false_ne_true] at hpacked

/-! ## Numbers and their bits -/

theorem eq_of_toNat_toBits {x y : Float32} (h : x.toBits.toNat = y.toBits.toNat) : x = y :=
  Float32.toBits_inj.1 (UInt32.toNat_inj.1 h)

theorem isFinite_iff (x : Float32) : x.isFinite = true ↔ magnitudeBits x < infinityBits :=
  isFinite_unpack_iff x.toBits.toBitVec

theorem toNat_toBits_abs {x : Float32} (h : x.isFinite = true) : x.abs.toBits.toNat = magnitudeBits x := by
  have hbits := toNat_unsignedBits x.toBits.toBitVec
  have hpacked : pack Format.binary32 (unpack Format.binary32 x.toBits.toBitVec).abs = unsignedBits x.toBits.toBitVec := by
    rw [← unpack_unsignedBits]
    refine pack_unpack_of_lt ?_
    rw [hbits, Nat.mod_mod]
    exact (isFinite_iff x).1 h
  exact (congrArg BitVec.toNat hpacked).trans hbits

theorem magnitudeBits_abs {x : Float32} (h : x.isFinite = true) : magnitudeBits x.abs = magnitudeBits x := by
  unfold magnitudeBits
  rw [toNat_toBits_abs h]
  exact Nat.mod_mod _ _

theorem isFinite_abs {x : Float32} (h : x.isFinite = true) : x.abs.isFinite = true := by
  rw [isFinite_iff, magnitudeBits_abs h]
  exact (isFinite_iff x).1 h

theorem isNegative_abs {x : Float32} (h : x.isFinite = true) : isNegative x.abs = false := by
  have hlt : magnitudeBits x < twoTo 31 := Nat.mod_lt _ (by decide)
  simpa [isNegative, toNat_toBits_abs h] using hlt

theorem abs_eq_self {x : Float32} (h : x.isFinite = true) (hsign : isNegative x = false) : x.abs = x := by
  refine eq_of_toNat_toBits ?_
  have hlt : x.toBits.toNat < twoTo 31 := by
    simpa [isNegative] using hsign
  rw [toNat_toBits_abs h, magnitudeBits, Nat.mod_eq_of_lt hlt]

theorem isNaN_isInf_of_isFinite {x : Float32} (h : x.isFinite = true) : x.isNaN = false ∧ x.isInf = false := by
  change (unpack Format.binary32 x.toBits.toBitVec).isFinite = true at h
  change (unpack Format.binary32 x.toBits.toBitVec).isNaN = false ∧
    (unpack Format.binary32 x.toBits.toBitVec).isInf = false
  cases hunpack : unpack Format.binary32 x.toBits.toBitVec with
  | notANumber => simp [hunpack, UnpackedFloat.isFinite] at h
  | infinity s => simp [hunpack, UnpackedFloat.isFinite] at h
  | zero s => exact ⟨rfl, rfl⟩
  | finite s m e hm => exact ⟨rfl, rfl⟩

theorem magnitudeBits_of_beq_zero {x : Float32} (h : (x == 0) = true) : magnitudeBits x = 0 := by
  -- Only the two zeros compare equal to zero.
  rcases (Float32.beq_iff_ne_nan_and_eq.1 h).2.2 with rfl | ⟨rfl, -⟩ | ⟨rfl, -⟩
  all_goals decide

/-- The number with certain bits below the sign has these bits. -/
theorem toNat_toBits_ofMagnitudeBits {bits : Nat} (h : bits < infinityBits) :
    (ofMagnitudeBits bits).toBits.toNat = bits := by
  have hlt : bits < twoTo 31 := Nat.lt_trans h (by decide)
  have hbits : (UInt32.ofNat (min bits infinityBits)).toBitVec.toNat = bits := by
    have hsize : bits < twoTo 32 := Nat.lt_trans hlt (by decide)
    rw [Nat.min_eq_left (Nat.le_of_lt h)]
    exact UInt32.toNat_ofNat_of_lt hsize
  have hpacked := pack_unpack_of_lt (b := (UInt32.ofNat (min bits infinityBits)).toBitVec) (by
    rwa [hbits, Nat.mod_eq_of_lt hlt])
  exact (congrArg BitVec.toNat hpacked).trans hbits

theorem ofMagnitudeBits_eq_abs {x : Float32} (h : x.isFinite = true) : ofMagnitudeBits (magnitudeBits x) = x.abs := by
  refine eq_of_toNat_toBits ?_
  rw [toNat_toBits_ofMagnitudeBits ((isFinite_iff x).1 h), toNat_toBits_abs h]

/-! ## Exact quotients -/

theorem divRoundEven_mul {a den : Nat} (hden : 0 < den) : divRoundEven (a * den) den = a := by
  simp [divRoundEven, Nat.mul_div_cancel a hden, hden]

/-- The bits of a number from its steps: how often they are to be halved, and what is left then. -/
theorem exists_steps_eq (x : Float32) :
    ∃ left, steps x = left * twoTo ((steps x).log2 - 23) ∧
      ((steps x).log2 - 23) * twoTo 23 + left = magnitudeBits x := by
  have hdiv := Nat.div_add_mod (magnitudeBits x) (twoTo 23)
  have hfraction : magnitudeBits x % twoTo 23 < 2 ^ 23 := Nat.mod_lt _ (by decide)
  by_cases hfield : magnitudeBits x / twoTo 23 = 0
  · have hsteps : steps x = magnitudeBits x % twoTo 23 := by
      simp [steps, hfield]
    have hshift : (steps x).log2 - 23 = 0 := by
      by_cases hzero : steps x = 0
      · simp [hzero]
      · have hlog : (steps x).log2 < 23 := (Nat.log2_lt hzero).2 (hsteps ▸ hfraction)
        omega
    refine ⟨steps x, by simp [hshift, twoTo], ?_⟩
    rw [hshift, hsteps]
    rw [hfield] at hdiv
    omega
  · obtain ⟨shift, hshift⟩ : ∃ shift, magnitudeBits x / twoTo 23 = shift + 1 := Nat.exists_eq_succ_of_ne_zero hfield
    have hsteps : steps x = (twoTo 23 + magnitudeBits x % twoTo 23) * 2 ^ shift := by
      simp only [steps, hshift, Nat.add_sub_cancel]
      rfl
    -- The leading one stands twenty-three places above the last bit that is not shifted in.
    have hlog : (steps x).log2 = 23 + shift := by
      have hpos := Nat.two_pow_pos shift
      have hlower : 2 ^ 23 * 2 ^ shift ≤ steps x := by
        rw [hsteps]
        exact Nat.mul_le_mul_right _ (Nat.le_add_right _ _)
      have hupper : steps x < 2 ^ 24 * 2 ^ shift := by
        rw [hsteps]
        refine Nat.mul_lt_mul_of_pos_right ?_ hpos
        simp only [twoTo, Nat.pow_eq] at hfraction ⊢
        omega
      have hne : steps x ≠ 0 := by
        have hlead := Nat.mul_pos (Nat.two_pow_pos 23) hpos
        omega
      have hsucc : 23 + shift + 1 = 24 + shift := by
        omega
      rw [Nat.log2_eq_iff hne, hsucc, Nat.pow_add, Nat.pow_add]
      exact ⟨hlower, hupper⟩
    refine ⟨twoTo 23 + magnitudeBits x % twoTo 23, ?_, ?_⟩
    · rw [hlog, Nat.add_sub_cancel_left]
      exact hsteps
    · rw [hlog, Nat.add_sub_cancel_left]
      rw [hshift, Nat.mul_succ] at hdiv
      rw [Nat.mul_comm shift]
      omega

/-- A finite number is the number nearest to itself. -/
theorem nearest_steps {x : Float32} (h : x.isFinite = true) {k : Nat} (hk : 0 < k) :
    nearest (steps x * k) (stepsPerOne * k) = x.abs := by
  rcases exists_steps_eq x with ⟨left, hsteps, hbits⟩
  have hden : 0 < stepsPerOne * k := Nat.mul_pos (by decide) hk
  have hscaled : steps x * k * stepsPerOne = steps x * (stepsPerOne * k) := by
    rw [Nat.mul_assoc, Nat.mul_comm k]
  have hquotient : steps x * k * stepsPerOne / (stepsPerOne * k) = steps x := by
    rw [hscaled, Nat.mul_div_cancel _ hden]
  have hrounded : divRoundEven (steps x * k * stepsPerOne) (stepsPerOne * k * twoTo ((steps x).log2 - 23)) = left := by
    have hproduct : steps x * k * stepsPerOne = left * (stepsPerOne * k * twoTo ((steps x).log2 - 23)) := by
      calc steps x * k * stepsPerOne
          = steps x * (stepsPerOne * k) := hscaled
        _ = left * twoTo ((steps x).log2 - 23) * (stepsPerOne * k) := by rw [← hsteps]
        _ = left * (stepsPerOne * k * twoTo ((steps x).log2 - 23)) := by
              rw [Nat.mul_assoc, Nat.mul_comm (twoTo _)]
    rw [hproduct]
    exact divRoundEven_mul (Nat.mul_pos hden (Nat.pow_pos (by decide)))
  simp only [nearest, hquotient, hrounded, hbits]
  exact ofMagnitudeBits_eq_abs h

theorem nearest_zero : nearest 0 1 = ofMagnitudeBits 0 := by
  have hscaled : 0 * stepsPerOne = 0 := Nat.zero_mul stepsPerOne
  have hshift : (0 / 1 : Nat).log2 - 23 = 0 := by decide
  have hround : divRoundEven 0 (1 * twoTo 0) = 0 := by decide
  have hcarry : 0 * twoTo 23 + 0 = 0 := Nat.zero_mul (twoTo 23)
  rw [nearest, hscaled, hshift, hround, hcarry]

/-! ## Positional digits -/

theorem read?_of_digits {digits : List Char} (hne : digits ≠ []) (h : ∀ c ∈ digits, c.isDigit = true) :
    read? digits = some (nearest (Nat.ofDigitChars 10 digits 0) 1) := by
  have htake : digits.takeWhile Char.isDigit = digits := List.takeWhile_eq_self_iff.2 h
  have hdrop : digits.dropWhile Char.isDigit = [] := List.dropWhile_eq_nil_iff.2 h
  have hempty : digits.isEmpty = false := by
    simpa using hne
  simp [read?, htake, hdrop, hempty]

theorem read?_of_point {whole fraction : List Char} (hne : whole ≠ []) (hwhole : ∀ c ∈ whole, c.isDigit = true)
    (hfraction : ∀ c ∈ fraction, c.isDigit = true) :
    read? (whole ++ '.' :: fraction) =
      some (nearest (Nat.ofDigitChars 10 (whole ++ fraction) 0) (tenTo fraction.length)) := by
  have htake : (whole ++ '.' :: fraction).takeWhile Char.isDigit = whole := by
    rw [List.takeWhile_append_of_pos hwhole]
    simp
  have hdrop : (whole ++ '.' :: fraction).dropWhile Char.isDigit = '.' :: fraction := by
    rw [List.dropWhile_append_of_pos hwhole]
    rfl
  have hempty : whole.isEmpty = false := by
    simpa using hne
  have hall : fraction.all Char.isDigit = true := List.all_eq_true.2 hfraction
  simp [read?, htake, hdrop, hempty, hall]

namespace Decimal

/-- The digits with zeros in front, so that one stands before the point. -/
def padded (d : Decimal) : List Char :=
  List.replicate (d.places + 1 - (Nat.toDigits 10 d.digits).length) '0' ++ Nat.toDigits 10 d.digits

theorem isDigit_of_mem_padded {d : Decimal} {c : Char} (h : c ∈ d.padded) : c.isDigit = true := by
  rcases List.mem_append.1 h with hzero | hdigit
  · rw [(List.mem_replicate.1 hzero).2]
    rfl
  · exact Nat.isDigit_of_mem_toDigits (by decide) (by decide) hdigit

theorem places_lt_length_padded (d : Decimal) : d.places < d.padded.length := by
  simp only [padded, List.length_append, List.length_replicate]
  omega

theorem ofDigitChars_padded (d : Decimal) : Nat.ofDigitChars 10 d.padded 0 = d.digits := by
  simp [padded, Nat.ofDigitChars_append]

/-- Where the point stands in the padded digits. -/
def point (d : Decimal) : Nat :=
  d.padded.length - d.places

theorem chars_of_places {d : Decimal} (h : d.places ≠ 0) :
    d.chars = d.padded.take d.point ++ '.' :: d.padded.drop d.point := by
  simp only [chars, if_neg h]
  rfl

theorem chars_of_whole {d : Decimal} (h : d.places = 0) :
    d.chars = Nat.toDigits 10 d.digits ++ List.replicate d.zeros '0' := by
  simp only [chars, if_pos h]

theorem take_padded_ne_nil (d : Decimal) : d.padded.take d.point ≠ [] := by
  have hplaces := d.places_lt_length_padded
  intro hnil
  have hlength := congrArg List.length hnil
  simp only [List.length_take, List.length_nil, point] at hlength
  omega

theorem isDigit_of_mem_whole {d : Decimal} {c : Char}
    (h : c ∈ Nat.toDigits 10 d.digits ++ List.replicate d.zeros '0') : c.isDigit = true := by
  rcases List.mem_append.1 h with hdigit | hzero
  · exact Nat.isDigit_of_mem_toDigits (by decide) (by decide) hdigit
  · rw [(List.mem_replicate.1 hzero).2]
    rfl

/-- The text of a decimal is read as its value. -/
theorem read?_chars {d : Decimal} (h : d.places = 0 ∨ d.zeros = 0) : read? d.chars = some d.value := by
  by_cases hplaces : d.places = 0
  · have hne : Nat.toDigits 10 d.digits ++ List.replicate d.zeros '0' ≠ [] := by
      simp [Nat.toDigits_ne_nil]
    rw [chars_of_whole hplaces, read?_of_digits hne fun c hmem => isDigit_of_mem_whole hmem]
    have hvalue : Nat.ofDigitChars 10 (Nat.toDigits 10 d.digits ++ List.replicate d.zeros '0') 0 =
        d.digits * tenTo d.zeros := by
      simp [Nat.ofDigitChars_append, tenTo, Nat.mul_comm]
    rw [hvalue, value, hplaces]
    rfl
  · have hzeros := h.resolve_left hplaces
    have hwhole : ∀ c ∈ d.padded.take d.point, c.isDigit = true := fun c hmem =>
      isDigit_of_mem_padded (List.mem_of_mem_take hmem)
    have hfraction : ∀ c ∈ d.padded.drop d.point, c.isDigit = true := fun c hmem =>
      isDigit_of_mem_padded (List.mem_of_mem_drop hmem)
    have hlength : (d.padded.drop d.point).length = d.places := by
      have hlt := d.places_lt_length_padded
      simp only [List.length_drop, point]
      omega
    rw [chars_of_places hplaces, read?_of_point d.take_padded_ne_nil hwhole hfraction, List.take_append_drop,
      ofDigitChars_padded, hlength, value, hzeros]
    simp [tenTo]

/-- The text of a decimal is a numeral: it begins with a digit and goes on with digits and points. -/
theorem exists_chars (d : Decimal) :
    ∃ c cs, d.chars = c :: cs ∧ c.isDigit = true ∧ ∀ c' ∈ cs, isNumberChar c' = true := by
  have hnumber {c : Char} (h : c.isDigit = true) : isNumberChar c = true := by
    simp [isNumberChar, h]
  by_cases hplaces : d.places = 0
  · rcases List.exists_cons_of_ne_nil (Nat.toDigits_ne_nil (n := d.digits) (b := 10)) with ⟨c, cs, hcons⟩
    have hall : ∀ c' ∈ c :: (cs ++ List.replicate d.zeros '0'), c'.isDigit = true := by
      intro c' hmem
      refine isDigit_of_mem_whole (d := d) ?_
      rwa [hcons]
    refine ⟨c, cs ++ List.replicate d.zeros '0', ?_, hall c List.mem_cons_self, fun c' hmem => ?_⟩
    · rw [chars_of_whole hplaces, hcons, List.cons_append]
    · exact hnumber (hall c' (List.mem_cons_of_mem c hmem))
  · rcases List.exists_cons_of_ne_nil d.take_padded_ne_nil with ⟨c, cs, hcons⟩
    have hall : ∀ c' ∈ c :: cs, c'.isDigit = true := by
      intro c' hmem
      rw [← hcons] at hmem
      exact isDigit_of_mem_padded (List.mem_of_mem_take hmem)
    refine ⟨c, cs ++ '.' :: d.padded.drop d.point, ?_, hall c List.mem_cons_self, fun c' hmem => ?_⟩
    · rw [chars_of_places hplaces, hcons, List.cons_append]
    · rcases List.mem_append.1 hmem with hwhole | hrest
      · exact hnumber (hall c' (List.mem_cons_of_mem c hwhole))
      · rcases List.mem_cons.1 hrest with rfl | hfraction
        · rfl
        · exact hnumber (isDigit_of_mem_padded (List.mem_of_mem_drop hfraction))

theorem scaled_places_or_zeros (digits high low : Nat) :
    (scaled digits high low).places = 0 ∨ (scaled digits high low).zeros = 0 := by
  simp only [scaled]
  omega

end Decimal

/-! ## Numerals of numbers -/

/-- A decimal taken for a number was read before it was taken. -/
theorem value_of_withDigits? {x : Float32} {l : Leading} {count : Nat} {d : Decimal}
    (h : withDigits? x l count = some d) : d.value = x ∧ (d.places = 0 ∨ d.zeros = 0) := by
  simp only [withDigits?] at h
  generalize l.length - count = dropped at h
  generalize hlower : Decimal.scaled (l.cut / tenTo dropped) dropped cutPlaces = lower at h
  generalize hupper : (if l.cut / tenTo dropped + 1 = tenTo count then Decimal.scaled 1 (dropped + count) cutPlaces
    else Decimal.scaled (l.cut / tenTo dropped + 1) dropped cutPlaces) = upper at h
  have hlowerShape : lower.places = 0 ∨ lower.zeros = 0 := by
    rw [← hlower]
    exact Decimal.scaled_places_or_zeros ..
  have hupperShape : upper.places = 0 ∨ upper.zeros = 0 := by
    rw [← hupper]
    split <;> exact Decimal.scaled_places_or_zeros ..
  by_cases hu : upper.value = x
  · rw [if_pos hu] at h
    by_cases hl : lower.value = x
    · split at h <;> cases h
      · exact ⟨hl, hlowerShape⟩
      · exact ⟨hu, hupperShape⟩
    · simp only [hl, decide_false, Bool.false_and, Bool.false_eq_true, if_false, Option.some.injEq] at h
      exact h ▸ ⟨hu, hupperShape⟩
  · rw [if_neg hu] at h
    split at h
    · rename_i hl
      cases h
      exact ⟨hl, hlowerShape⟩
    · cases h

/-- The exact expansion that stands behind the candidates. -/
theorem value_exact {x : Float32} (h : x.isFinite = true) :
    ({ digits := steps x * Nat.pow 5 149, places := 149, zeros := 0 } : Decimal).value = x.abs := by
  have hone : tenTo 149 = stepsPerOne * Nat.pow 5 149 := by decide
  have hnearest := nearest_steps h (k := Nat.pow 5 149) (by decide)
  rw [← hone] at hnearest
  have hzeros : steps x * Nat.pow 5 149 * tenTo 0 = steps x * Nat.pow 5 149 := Nat.mul_one _
  rw [Decimal.value, hzeros, hnearest]

theorem value_shortest {x : Float32} (h : x.isFinite = true) (hsign : isNegative x = false) :
    (shortest x).value = x ∧ ((shortest x).places = 0 ∨ (shortest x).zeros = 0) := by
  rw [shortest]
  cases hfound : (List.range' 1 maxDigits).findSome? (withDigits? x (leading x)) with
  | none =>
      -- No candidate was taken; the exact expansion rounds to `x`.
      exact ⟨(value_exact h).trans (abs_eq_self h hsign), .inr rfl⟩
  | some d =>
    rcases List.exists_of_findSome?_eq_some hfound with ⟨count, hcount, hd⟩
    exact value_of_withDigits? hd

theorem chars_abs {x : Float32} (h : x.isFinite = true) :
    chars x.abs = if x.abs == 0 then ['0'] else (shortest x.abs).chars := by
  have hfinite := isFinite_abs h
  have habs : x.abs.abs = x.abs := abs_eq_self hfinite (isNegative_abs h)
  rcases isNaN_isInf_of_isFinite hfinite with ⟨hnan, hinf⟩
  simp only [chars, hnan, hinf, habs, isNegative_abs h, Bool.false_eq_true, if_false]

/-- The text of a finite number is that of its magnitude, after a minus sign if its sign bit is set. -/
theorem chars_eq {x : Float32} (h : x.isFinite = true) :
    chars x = if isNegative x then '-' :: chars x.abs else chars x.abs := by
  have hnan := (isNaN_isInf_of_isFinite h).1
  have hinf := (isNaN_isInf_of_isFinite (isFinite_abs h)).2
  rw [chars_abs h]
  simp only [chars, hnan, hinf, Bool.false_eq_true, if_false]

/-- The text of a magnitude reads back as that magnitude. -/
theorem read?_chars {x : Float32} (h : x.isFinite = true) : read? (chars x.abs) = some x.abs := by
  rw [chars_abs h]
  split
  · -- Zero has a text of its own.
    rename_i hzero
    have hread : read? ['0'] = some (nearest 0 1) := rfl
    have hbits : magnitudeBits x = 0 := by
      rw [← magnitudeBits_abs h]
      exact magnitudeBits_of_beq_zero hzero
    rw [hread, nearest_zero, ← hbits, ofMagnitudeBits_eq_abs h]
  · rcases value_shortest (isFinite_abs h) (isNegative_abs h) with ⟨hvalue, hshape⟩
    rw [Decimal.read?_chars hshape, hvalue]

/-- The text of a magnitude is a numeral. -/
theorem exists_chars {x : Float32} (h : x.isFinite = true) :
    ∃ c cs, chars x.abs = c :: cs ∧ c.isDigit = true ∧ ∀ c' ∈ cs, isNumberChar c' = true := by
  rw [chars_abs h]
  split
  · exact ⟨'0', [], rfl, rfl, fun c' hmem => nomatch hmem⟩
  · exact (shortest x.abs).exists_chars

end Number
end TurtleLogo
