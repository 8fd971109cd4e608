import TurtleLogo.Number.Exact

/-!
# Arithmetic of numbers

The operations that the language and its drawings need beyond the four basic ones, which `Float32` brings:
truncation, the remainder of a division, the least and greatest of two numbers, angles, truth values and
repeat counts. All are total; NaN and the infinities are values like any other.
-/

namespace TurtleLogo
namespace Number

/-! ## Constants -/

/-- The ratio of a circle's circumference to its diameter. -/
def pi : Float32 := 3.14159265358979323846

/-- A full turn in radians. -/
def fullTurn : Float32 := 6.28318530717958647692

/-- A quarter turn in radians. -/
def quarterTurn : Float32 := 1.57079632679489661923

/-- One degree in radians. -/
def degree : Float32 := 0.017453292519943295

def nan : Float32 := 0 / 0

/-! ## Truncation and remainder -/

/-- Drops the fraction and keeps the sign, also that of a zero result. -/
def trunc (x : Float32) : Float32 :=
  if x.isFinite then withSignOf x (nearest (steps x / stepsPerOne) 1) else x

/-- The whole part of a finite number as an integer. -/
def toInt (x : Float32) : Int :=
  let whole : Int := (steps x / stepsPerOne : Nat)
  if isNegative x then -whole else whole

/-- The exact remainder of `a / b` with the quotient cut toward zero; it has the sign of `a`. -/
def rem (a b : Float32) : Float32 :=
  if a.isNaN || b.isNaN || a.isInf || b == 0 then nan
  else if b.isInf then a
  else withSignOf a (nearest (steps a % steps b) stepsPerOne)

/-- `1` or `-1` by the sign bit, also for zeros; NaN for NaN. -/
def signum (x : Float32) : Float32 :=
  if x.isNaN then x else withSignOf x 1

/-- An angle in radians brought into a full turn from zero. A tiny negative angle rounds up to a whole
turn, which is the zero angle again. -/
def wrapAngle (angle : Float32) : Float32 :=
  let remainder := rem angle fullTurn
  let wrapped := if remainder < 0 then remainder + fullTurn else remainder
  if fullTurn ≤ wrapped then 0 else wrapped

/-- Degrees to radians. -/
def toRadians (degrees : Float32) : Float32 :=
  degrees * degree

/-! ## Order -/

/-- The lesser of two numbers; the other one if one of them is NaN. -/
def least (a b : Float32) : Float32 :=
  if a.isNaN then b else if b < a then b else a

/-- The greater of two numbers; the other one if one of them is NaN. -/
def greatest (a b : Float32) : Float32 :=
  if a.isNaN then b else if a < b then b else a

/-! ## Truth values and counts -/

/-- A number counts as true when its magnitude is at least one. -/
def truth (x : Float32) : Bool :=
  1 ≤ x.abs

/-- `1` for true, `0` for false. -/
def ofTruth (b : Bool) : Float32 :=
  if b then 1 else 0

/-- How often a loop runs: the whole part, none for NaN and negative numbers, at most `2 ^ 64 - 1`. -/
def repeatCount (x : Float32) : Nat :=
  (greatest x 0).toUInt64.toNat

end Number
end TurtleLogo
