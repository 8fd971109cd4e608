import TurtleLogo.Drawing.Figure

/-!
# Pages

A page is a drawing shifted so that nothing lies left of or above the origin, with its width and height. The box of a
drawing always holds the origin from which the turtle started.
-/

namespace TurtleLogo

/-- The marks of a drawing in the order they were made. -/
abbrev Canvas := List Mark

namespace Canvas

/-- The least box around the origin and all figures. -/
def box (canvas : Canvas) : Box :=
  canvas.foldl (fun box mark => box.join mark.figure.box) (Box.ofPoint Point.origin)

/-- All figures moved by a vector. -/
def shift (canvas : Canvas) (offset : Point) : Canvas :=
  canvas.map fun mark => { mark with figure := mark.figure.shift offset }

end Canvas

namespace Box

/-- The vector that moves the least corner to the origin. -/
def offset (b : Box) : Point :=
  ⟨-b.lo.x, -b.lo.y⟩

/-- The width in whole units. -/
def width (b : Box) : UInt32 :=
  (b.hi.x - b.lo.x).toUInt32

/-- The height in whole units. -/
def height (b : Box) : UInt32 :=
  (b.hi.y - b.lo.y).toUInt32

end Box

structure Page where
  width : UInt32
  height : UInt32
  canvas : Canvas
  deriving DecidableEq, Repr

/-- The page of a canvas. -/
def Page.layout (canvas : Canvas) : Page :=
  let box := canvas.box
  { width := box.width, height := box.height, canvas := canvas.shift box.offset }

end TurtleLogo
