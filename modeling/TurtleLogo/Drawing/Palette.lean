import TurtleLogo.Drawing.Colour
import TurtleLogo.Number.Arithmetic

/-!
# The palette

Sixteen numbered colours that a program can use and change. A program names a slot by a number, of which only
the whole part counts.
-/

namespace TurtleLogo

/-- Sixteen colours, numbered from zero. -/
abbrev Palette := Vector Colour 16

namespace Palette

/-- The colours at the start of a run. -/
def initial : Palette :=
  #v[⟨0, 0, 0⟩, ⟨0, 0, 255⟩, ⟨0, 255, 0⟩, ⟨0, 255, 255⟩, ⟨255, 0, 0⟩, ⟨255, 0, 255⟩, ⟨255, 255, 0⟩,
    ⟨255, 255, 255⟩, ⟨165, 42, 42⟩, ⟨210, 180, 140⟩, ⟨0, 128, 0⟩, ⟨127, 255, 212⟩, ⟨250, 128, 114⟩,
    ⟨128, 0, 128⟩, ⟨255, 165, 0⟩, ⟨128, 128, 128⟩]

/-- The slot with a given number, if there is one. -/
def slot? (index : Int) : Option (Fin 16) :=
  if h : 0 ≤ index ∧ index < 16 then some ⟨index.toNat, by omega⟩ else none

/-- The slot that a program's number stands for: its whole part, which must exist. -/
def slotOf? (index : Float32) : Option (Fin 16) :=
  if index.isFinite then slot? (Number.toInt index) else none

/-- The colour with a given number. -/
def colour? (p : Palette) (index : Int) : Option Colour :=
  (slot? index).map p.get

/-- The palette with one colour replaced. -/
def put (p : Palette) (slot : Fin 16) (colour : Colour) : Palette :=
  p.set slot.val colour slot.isLt

theorem get_put (p : Palette) (slot other : Fin 16) (colour : Colour) :
    (p.put slot colour).get other = if slot = other then colour else p.get other := by
  simp only [Fin.ext_iff]
  exact Vector.getElem_set slot.isLt other.isLt

/-- The palette with the colour of a given number replaced; `none` if there is no such slot. -/
def setColour? (p : Palette) (index : Int) (colour : Colour) : Option Palette :=
  (slot? index).map fun slot => p.put slot colour

end Palette
end TurtleLogo
