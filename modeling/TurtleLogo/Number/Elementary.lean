/-!
# Elementary functions

Trigonometric functions, exponentials and logarithms of numbers. Each is computed in double precision and
rounded once to single precision, which gives the nearest number except where the double result lies within
its own error of a midpoint.
-/

namespace TurtleLogo
namespace Number

/-- A function on doubles, rounded to single precision. -/
def inDouble (f : Float → Float) (x : Float32) : Float32 :=
  (f x.toFloat).toFloat32

/-- A function of two doubles, rounded to single precision. -/
def inDouble₂ (f : Float → Float → Float) (x y : Float32) : Float32 :=
  (f x.toFloat y.toFloat).toFloat32

def sin : Float32 → Float32 := inDouble Float.sin

def cos : Float32 → Float32 := inDouble Float.cos

def tan : Float32 → Float32 := inDouble Float.tan

/-- The angle whose tangent is the argument, between minus and plus a quarter turn. -/
def arctan : Float32 → Float32 := inDouble Float.atan

/-- The angle of the point with ordinate `y` and abscissa `x`, given in that order. -/
def arctan₂ (y x : Float32) : Float32 := inDouble₂ Float.atan2 y x

def exp : Float32 → Float32 := inDouble Float.exp

/-- The natural logarithm. -/
def ln : Float32 → Float32 := inDouble Float.log

/-- The logarithm to base ten. -/
def log10 : Float32 → Float32 := inDouble Float.log10

/-- `x` raised to the power `y`. -/
def power (x y : Float32) : Float32 := inDouble₂ Float.pow x y

end Number
end TurtleLogo
