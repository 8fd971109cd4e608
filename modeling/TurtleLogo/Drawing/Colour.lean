/-!
# Colours

A colour has three channels of eight bits. It is written `#rrggbb` in programs and `rgb(r,g,b)` in documents;
sixteen colours have names. Colour lists in programs give intensities from `0` to `99` instead of channels.
-/

namespace TurtleLogo

structure Colour where
  red : UInt8
  green : UInt8
  blue : UInt8
  deriving DecidableEq, Repr

namespace Colour

/-! ## Hexadecimal texts -/

/-- The two lower-case hexadecimal digits of a channel. -/
def channelDigits (channel : UInt8) : List Char :=
  [Nat.digitChar (channel.toNat / 16), Nat.digitChar (channel.toNat % 16)]

/-- The text `#rrggbb`. -/
def hex (c : Colour) : String :=
  String.ofList ('#' :: (channelDigits c.red ++ channelDigits c.green ++ channelDigits c.blue))

/-- The value of a hexadecimal digit of either case. -/
def hexValue? (c : Char) : Option Nat :=
  if c.isDigit then some (c.toNat - '0'.toNat)
  else if 'a' ≤ c && c ≤ 'f' then some (c.toNat - 'a'.toNat + 10)
  else if 'A' ≤ c && c ≤ 'F' then some (c.toNat - 'A'.toNat + 10)
  else none

/-- The channel written by two hexadecimal digits. -/
def channelOfDigits? (high low : Char) : Option UInt8 := do
  let h ← hexValue? high
  let l ← hexValue? low
  return UInt8.ofNat (16 * h + l)

/-- Reads `#` and six hexadecimal digits of either case, and nothing else. -/
def ofHex? (text : String) : Option Colour :=
  match text.toList with
  | ['#', r₁, r₀, g₁, g₀, b₁, b₀] => do
      let red ← channelOfDigits? r₁ r₀
      let green ← channelOfDigits? g₁ g₀
      let blue ← channelOfDigits? b₁ b₀
      return { red, green, blue }
  | _ => none

/-- The text `rgb(r,g,b)` with decimal channels. -/
def rgb (c : Colour) : String :=
  "rgb(" ++ toString c.red.toNat ++ "," ++ toString c.green.toNat ++ "," ++ toString c.blue.toNat ++ ")"

/-! ## Names -/

/-- The colours that have a name. -/
def names : List (String × Colour) :=
  [ ("black", ⟨0, 0, 0⟩), ("silver", ⟨192, 192, 192⟩), ("gray", ⟨128, 128, 128⟩), ("white", ⟨255, 255, 255⟩),
    ("maroon", ⟨128, 0, 0⟩), ("red", ⟨255, 0, 0⟩), ("purple", ⟨128, 0, 128⟩), ("fuchsia", ⟨255, 0, 255⟩),
    ("green", ⟨0, 128, 0⟩), ("lime", ⟨0, 255, 0⟩), ("olive", ⟨128, 128, 0⟩), ("yellow", ⟨255, 255, 0⟩),
    ("navy", ⟨0, 0, 128⟩), ("blue", ⟨0, 0, 255⟩), ("teal", ⟨0, 128, 128⟩), ("aqua", ⟨0, 255, 255⟩) ]

/-- The colour of a name in any case. -/
def named? (name : String) : Option Colour :=
  names.lookup name.toLower

/-! ## Intensities -/

/-- The greatest intensity of a channel in a colour list. -/
def maxIntensity : Float32 := 99

/-- The channel of an intensity from `0` to `99`, scaled to `0` to `255` and cut to a whole number. -/
def ofIntensity? (value : Float32) : Option UInt8 :=
  if 0 ≤ value && value ≤ maxIntensity then some (value * 255 / maxIntensity).toUInt8 else none

end Colour
end TurtleLogo
