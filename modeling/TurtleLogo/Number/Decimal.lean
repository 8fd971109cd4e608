import TurtleLogo.Number.Exact

/-!
# Decimal texts of numbers

A number is written with the fewest decimal digits that read back as the same number, never with an
exponent: `7`, `0.1`, `-0`, `16777216`. Reading takes digits with at most one point and rounds to the nearest
number.

* `Number.read? cs` reads an unsigned decimal;
* `Number.shortest x` is the decimal chosen for a positive finite number;
* `Number.text x` is the text of any number, `Number.ofText?` reads such a text.

That `shortest x` reads back as `x` needs no bound on the number of digits: each candidate is read before it
is taken, and the exact expansion stands behind them.
-/

namespace TurtleLogo
namespace Number

/-! ## Reading -/

/-- Reads digits with at most one point among them and at least one digit. -/
def read? (text : List Char) : Option Float32 :=
  let whole := text.takeWhile Char.isDigit
  match text.dropWhile Char.isDigit with
  | [] => if whole.isEmpty then none else some (nearest (Nat.ofDigitChars 10 whole 0) 1)
  | point :: fraction =>
      if point = '.' && fraction.all Char.isDigit && !(whole.isEmpty && fraction.isEmpty) then
        some (nearest (Nat.ofDigitChars 10 (whole ++ fraction) 0) (tenTo fraction.length))
      else none

/-! ## Digits -/

/-- The decimal `digits / 10 ^ places * 10 ^ zeros`; a decimal with places has no zeros to add. -/
structure Decimal where
  digits : Nat
  places : Nat
  zeros : Nat
  deriving DecidableEq, Repr

namespace Decimal

/-- The decimal `digits * 10 ^ (high - low)`. -/
def scaled (digits high low : Nat) : Decimal :=
  { digits, places := low - high, zeros := high - low }

/-- The number nearest to a decimal. -/
def value (d : Decimal) : Float32 :=
  nearest (d.digits * tenTo d.zeros) (tenTo d.places)

/-- Positional digits: zeros after a whole number, or a point with `places` digits behind it. -/
def chars (d : Decimal) : List Char :=
  let digits := Nat.toDigits 10 d.digits
  if d.places = 0 then digits ++ List.replicate d.zeros '0'
  else
    let padded := List.replicate (d.places + 1 - digits.length) '0' ++ digits
    padded.take (padded.length - d.places) ++ '.' :: padded.drop (padded.length - d.places)

end Decimal

/-- Decimal places to which a magnitude is cut before its leading digits are taken. Even the smallest
positive number has more than nine digits before the cut. -/
def cutPlaces : Nat := 60

/-- No number needs more significant digits to read back. -/
def maxDigits : Nat := 9

/-- The number of decimal digits of a positive `n` below `2 ^ 400`. The binary length bounds it from two sides, the
factor being just less than the decimal logarithm of two, and one comparison decides. -/
def digitCount (n : Nat) : Nat :=
  let atLeast := n.log2 * 1233 / 4096 + 1
  if n < tenTo atLeast then atLeast else atLeast + 1

/-- The leading digits of a magnitude: `exact / stepsPerOne` is `10 ^ cutPlaces` times the magnitude, `cut` its whole
part, and `length` the number of digits of that. -/
structure Leading where
  exact : Nat
  cut : Nat
  length : Nat

def leading (x : Float32) : Leading :=
  let exact := steps x * tenTo cutPlaces
  let cut := exact / stepsPerOne
  { exact, cut, length := digitCount cut }

/-- Of the two decimals with `count` significant digits next to `x`, the one that reads back as `x`; if both do,
the nearer one, and the upper one on a tie. The upper one may be the next power of ten, which needs one digit. -/
def withDigits? (x : Float32) (l : Leading) (count : Nat) : Option Decimal :=
  let dropped := l.length - count
  let below := l.cut / tenTo dropped
  let lower := Decimal.scaled below dropped cutPlaces
  let upper :=
    if below + 1 = tenTo count then Decimal.scaled 1 (dropped + count) cutPlaces
    else Decimal.scaled (below + 1) dropped cutPlaces
  if upper.value = x then
    if lower.value = x && 2 * l.exact < (2 * below + 1) * tenTo dropped * stepsPerOne then some lower
    else some upper
  else if lower.value = x then some lower
  else none

/-- The fewest digits that read back as the positive finite number `x`. -/
def shortest (x : Float32) : Decimal :=
  ((List.range' 1 maxDigits).findSome? (withDigits? x (leading x))).getD
    { digits := steps x * Nat.pow 5 149, places := 149, zeros := 0 }

/-! ## Texts -/

/-- The characters of a number's text. -/
def chars (x : Float32) : List Char :=
  if x.isNaN then ['N', 'a', 'N']
  else
    let magnitude := x.abs
    let unsigned :=
      if magnitude.isInf then ['i', 'n', 'f']
      else if magnitude == 0 then ['0']
      else (shortest magnitude).chars
    if isNegative x then '-' :: unsigned else unsigned

/-- The text of a number. -/
def text (x : Float32) : String :=
  String.ofList (chars x)

/-- Reads the text of a magnitude: an unsigned decimal or `inf`. -/
def readMagnitude? (cs : List Char) : Option Float32 :=
  if cs = ['i', 'n', 'f'] then some (1 / 0) else read? cs

/-- Reads a text such as `text` writes: a decimal or `inf` with an optional minus sign, or `NaN`. -/
def ofText? (s : String) : Option Float32 :=
  match s.toList with
  | '-' :: cs => (readMagnitude? cs).map (- ·)
  | ['N', 'a', 'N'] => some (0 / 0)
  | cs => readMagnitude? cs

end Number
end TurtleLogo
