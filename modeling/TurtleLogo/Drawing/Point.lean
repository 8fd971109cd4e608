import TurtleLogo.Number.Arithmetic
import TurtleLogo.Number.Elementary

/-!
# Points and boxes

Points of the page, where `x` grows to the right and `y` grows downward, and upright boxes around them. A
heading of a quarter turn points up the page.
-/

namespace TurtleLogo

structure Point where
  x : Float32
  y : Float32
  deriving DecidableEq, Repr

namespace Point

def origin : Point := ⟨0, 0⟩

/-- The least coordinates of two points. -/
def least (p q : Point) : Point :=
  ⟨Number.least p.x q.x, Number.least p.y q.y⟩

/-- The greatest coordinates of two points. -/
def greatest (p q : Point) : Point :=
  ⟨Number.greatest p.x q.x, Number.greatest p.y q.y⟩

/-- The point shifted by a vector. -/
def shift (p offset : Point) : Point :=
  ⟨p.x + offset.x, p.y + offset.y⟩

/-- The point that lies `distance` away in direction `heading`. -/
def along (p : Point) (heading distance : Float32) : Point :=
  ⟨p.x + Number.cos heading * distance, p.y - Number.sin heading * distance⟩

/-- Whether two points have the same coordinates as numbers: both zeros are the same, and NaN is the same as
nothing. -/
def coincides (p q : Point) : Bool :=
  p.x == q.x && p.y == q.y

end Point

/-- An upright box, given by its least and its greatest corner. -/
structure Box where
  lo : Point
  hi : Point
  deriving DecidableEq, Repr

namespace Box

/-- The box that holds one point. -/
def ofPoint (p : Point) : Box := ⟨p, p⟩

/-- The least box around two boxes. -/
def join (b c : Box) : Box :=
  ⟨b.lo.least c.lo, b.hi.greatest c.hi⟩

/-- The least box around a box and some points. -/
def around (b : Box) (points : List Point) : Box :=
  points.foldl (fun box p => box.join (ofPoint p)) b

end Box
end TurtleLogo
