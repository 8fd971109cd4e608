/-!
# Exact values of single precision numbers

Every value of the language is an IEEE binary32 number, for which the library uses `Float32`. A finite
number is a whole multiple of `2 ^ -149`, the smallest positive one, so its magnitude is exactly described
by a natural number of such steps. This module reads that count off the bit pattern and goes back from an
exact quotient to the number nearest to it:

* `Number.steps x`: the magnitude of a finite `x`, counted in steps of `2 ^ -149`;
* `Number.nearest num den`: the number nearest to `num / den`, ties to the even bit pattern.

Decimal texts, truncation and the remainder are all stated with these two.
-/

namespace TurtleLogo
namespace Number

/-! ## Powers -/

/-- Two to the power `k`. -/
def twoTo (k : Nat) : Nat := Nat.pow 2 k

/-- Ten to the power `k`. -/
def tenTo (k : Nat) : Nat := Nat.pow 10 k

/-! ## Bits and steps -/

/-- The bits of `x` below the sign: eight exponent bits, then twenty-three fraction bits. -/
def magnitudeBits (x : Float32) : Nat :=
  x.toBits.toNat % twoTo 31

/-- Whether the sign bit of `x` is set; so for `-0`, and not for NaN, which has one bit pattern. -/
def isNegative (x : Float32) : Bool :=
  twoTo 31 ≤ x.toBits.toNat

/-- How many steps make one. -/
def stepsPerOne : Nat := twoTo 149

/-- The magnitude of a finite number in steps of `2 ^ -149`. The fraction counts steps directly while the
exponent field is zero; otherwise it has a leading one, and the field says how often the sum is doubled. -/
def steps (x : Float32) : Nat :=
  let field := magnitudeBits x / twoTo 23
  let fraction := magnitudeBits x % twoTo 23
  if field = 0 then fraction else (twoTo 23 + fraction) * twoTo (field - 1)

/-! ## Rounding -/

/-- The quotient of two naturals rounded to the nearest one, a tie to the even one. -/
def divRoundEven (num den : Nat) : Nat :=
  let quotient := num / den
  let remainder := num % den
  if 2 * remainder < den then quotient
  else if den < 2 * remainder then quotient + 1
  else quotient + quotient % 2

/-- The bit pattern of positive infinity. -/
def infinityBits : Nat := 255 * twoTo 23

/-- The nonnegative number with the given bits below the sign; whatever passes infinity is infinity. -/
def ofMagnitudeBits (bits : Nat) : Float32 :=
  Float32.ofBits (UInt32.ofNat (min bits infinityBits))

/-- The number nearest to `num / den`, ties to the even bit pattern. The quotient is cut to twenty-four
significant bits by a shift; adding the rounded bits to the shift count carries into the exponent field by
itself when rounding reaches the next power of two. -/
def nearest (num den : Nat) : Float32 :=
  let scaled := num * stepsPerOne
  let shift := (scaled / den).log2 - 23
  ofMagnitudeBits (shift * twoTo 23 + divRoundEven scaled (den * twoTo shift))

/-- `magnitude` with the sign bit of `source`. -/
def withSignOf (source magnitude : Float32) : Float32 :=
  if isNegative source then -magnitude else magnitude

end Number
end TurtleLogo
