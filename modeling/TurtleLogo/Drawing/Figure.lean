import TurtleLogo.Drawing.Colour
import TurtleLogo.Drawing.Point

/-!
# Figures on the canvas

What a turtle leaves behind: straight segments and circular arcs, each drawn with a stroke. Arcs are drawn as
chains of chords of one degree, so every figure has an outline of finitely many points, and its box and its path
on the page are both taken from that outline.
-/

namespace TurtleLogo

/-- How a figure is drawn. -/
structure Stroke where
  colour : Colour
  width : UInt32
  deriving DecidableEq, Repr

/-- An arc around `center` that starts in direction `start` and runs clockwise by `sweep` radians, or
counter-clockwise if `sweep` is negative. -/
structure Arc where
  center : Point
  start : Float32
  radius : Float32
  sweep : Float32
  deriving DecidableEq, Repr

namespace Arc

/-- The angle between two neighbouring points of an outline. -/
def chordAngle : Float32 := Number.pi / 180

/-- How far the arc turns. What goes beyond a full turn only retraces the circle, and a sweep that is not a
number counts as a full turn. -/
def extent (a : Arc) : Float32 :=
  Number.least a.sweep.abs Number.fullTurn

/-- `-1` for clockwise, `1` for counter-clockwise. -/
def direction (a : Arc) : Float32 :=
  if a.sweep < 0 then 1 else -1

/-- The number of whole chords. The margin keeps a sweep of whole degrees from losing its last chord. -/
def chords (a : Arc) : Nat :=
  (a.extent / chordAngle + 0.001).toUInt64.toNat

/-- The point of the circle in a given direction. -/
def pointAt (a : Arc) (angle : Float32) : Point :=
  a.center.along angle a.radius

/-- The point after `i` chords. -/
def chordPoint (a : Arc) (i : Nat) : Point :=
  a.pointAt (a.start + a.direction * Float32.ofNat i * chordAngle)

/-- The end of the arc, when the whole chords stop short of it. -/
def lastPoint (a : Arc) : List Point :=
  if 0.000001 < a.extent - Float32.ofNat a.chords * chordAngle then
    [a.pointAt (a.start + a.direction * a.extent)]
  else []

end Arc

inductive Figure where
  | segment (start finish : Point)
  | arc (arc : Arc)
  deriving DecidableEq, Repr

namespace Figure

/-- The first point of a figure's outline. -/
def firstPoint : Figure → Point
  | segment start _ => start
  | arc a => a.chordPoint 0

/-- The points of the outline after the first. -/
def furtherPoints : Figure → List Point
  | segment _ finish => [finish]
  | arc a => (List.range' 1 a.chords).map a.chordPoint ++ a.lastPoint

/-- The points through which the figure is drawn, in order. -/
def outline (f : Figure) : List Point :=
  f.firstPoint :: f.furtherPoints

/-- The box of the outline. -/
def box (f : Figure) : Box :=
  (Box.ofPoint f.firstPoint).around f.furtherPoints

/-- The figure moved by a vector. -/
def shift (offset : Point) : Figure → Figure
  | segment start finish => segment (start.shift offset) (finish.shift offset)
  | arc a => arc { a with center := a.center.shift offset }

end Figure

/-- A figure and the stroke it was drawn with. -/
structure Mark where
  figure : Figure
  stroke : Stroke
  deriving DecidableEq, Repr

end TurtleLogo
