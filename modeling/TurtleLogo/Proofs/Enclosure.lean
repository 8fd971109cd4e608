import TurtleLogo.Page.Layout
import TurtleLogo.Proofs.NumberOrder

/-!
# The box around a drawing

The box of a canvas is found by two folds, one over the points of each figure and one over the figures. Either takes the
least and greatest coordinates so far, so that all that matters of a box is which points it spans:

* `Box.Spans` — each side of the box has the foremost coordinate of some points in its direction;
* `Figure.spans_box`, `Canvas.spans_box` — the box of a figure spans its outline, and that of a canvas the origin and all
  outlines.

A coordinate that is NaN never counts, not even that of the first point of a figure, with which the inner fold begins.
-/

namespace TurtleLogo

open Number (Foremost picks_least picks_greatest)

/-! ## Boxes and the points they span -/

/-- The sides of the box have the foremost coordinates of the points. -/
structure Box.Spans (b : Box) (points : List Point) : Prop where
  left : Foremost (· ≤ ·) (points.map Point.x) b.lo.x
  right : Foremost (· ≥ ·) (points.map Point.x) b.hi.x
  top : Foremost (· ≤ ·) (points.map Point.y) b.lo.y
  bottom : Foremost (· ≥ ·) (points.map Point.y) b.hi.y

namespace Box

theorem spans_ofPoint (p : Point) : (ofPoint p).Spans [p] where
  left := .single picks_least p.x
  right := .single picks_greatest p.x
  top := .single picks_least p.y
  bottom := .single picks_greatest p.y

namespace Spans

variable {b c : Box} {points more : List Point}

theorem join (hb : b.Spans points) (hc : c.Spans more) : (b.join c).Spans (points ++ more) where
  left := by
    rw [List.map_append]
    exact hb.left.append picks_least hc.left
  right := by
    rw [List.map_append]
    exact hb.right.append picks_greatest hc.right
  top := by
    rw [List.map_append]
    exact hb.top.append picks_least hc.top
  bottom := by
    rw [List.map_append]
    exact hb.bottom.append picks_greatest hc.bottom

theorem around (hb : b.Spans points) (more : List Point) : (b.around more).Spans (points ++ more) := by
  induction more generalizing b points with
  | nil => simpa [Box.around] using hb
  | cons p more ih => simpa [Box.around] using ih (hb.join (spans_ofPoint p))

/-- Boxes that span the same points in another order are the same as numbers. -/
theorem coincides (hb : b.Spans points) (hc : c.Spans more) (hperm : points.Perm more) (horigin : Point.origin ∈ points) :
    b.lo.coincides c.lo = true ∧ b.hi.coincides c.hi = true := by
  have hxs := hperm.map Point.x
  have hys := hperm.map Point.y
  have hx : (0 : Float32) ∈ points.map Point.x := List.mem_map_of_mem horigin
  have hy : (0 : Float32) ∈ points.map Point.y := List.mem_map_of_mem horigin
  have hleft := hb.left.both_before picks_least hc.left hxs hx rfl
  have htop := hb.top.both_before picks_least hc.top hys hy rfl
  have hright := hb.right.both_before picks_greatest hc.right hxs hx rfl
  have hbottom := hb.bottom.both_before picks_greatest hc.bottom hys hy rfl
  simp only [Point.coincides, Bool.and_eq_true]
  exact ⟨⟨Number.beq_of_le hleft.1 hleft.2, Number.beq_of_le htop.1 htop.2⟩,
    Number.beq_of_le hright.2 hright.1, Number.beq_of_le hbottom.2 hbottom.1⟩

end Spans

end Box

theorem Figure.spans_box (f : Figure) : f.box.Spans f.outline :=
  (Box.spans_ofPoint f.firstPoint).around f.furtherPoints

/-! ## The box of a canvas -/

namespace Canvas

/-- The points through which the figures of a canvas are drawn. -/
def points (canvas : Canvas) : List Point :=
  canvas.flatMap fun mark => mark.figure.outline

theorem mem_points {canvas : Canvas} {p : Point} : p ∈ canvas.points ↔ ∃ mark ∈ canvas, p ∈ mark.figure.outline :=
  List.mem_flatMap

theorem spans_foldl {b : Box} {points : List Point} (hb : b.Spans points) (canvas : Canvas) :
    (canvas.foldl (fun box mark => box.join mark.figure.box) b).Spans (points ++ canvas.points) := by
  induction canvas generalizing b points with
  | nil => simpa [Canvas.points] using hb
  | cons mark canvas ih => simpa [Canvas.points] using ih (hb.join mark.figure.spans_box)

theorem spans_box (canvas : Canvas) : canvas.box.Spans (Point.origin :: canvas.points) :=
  spans_foldl (Box.spans_ofPoint Point.origin) canvas

/-- The sides of the box have coordinates of the figures, or zero. -/
theorem mem_coordinates {canvas : Canvas} {coordinate : Point → Float32} {side : Float32}
    (h : side ∈ (Point.origin :: canvas.points).map coordinate) :
    side = coordinate Point.origin ∨ ∃ mark ∈ canvas, ∃ p ∈ mark.figure.outline, coordinate p = side := by
  rw [List.map_cons, List.mem_cons, List.mem_map] at h
  refine h.imp_right ?_
  rintro ⟨p, hmem, hp⟩
  rcases mem_points.1 hmem with ⟨mark, hmark, houtline⟩
  exact ⟨mark, hmark, p, houtline, hp⟩

/-- The box of a canvas is the least one around the origin and the drawing, whatever numbers stand in it. No side is NaN;
the origin is inside, as are all coordinates but those that are NaN; each side is that of the origin or of a point of some
figure. So the box is the same, as numbers, in whatever order the figures were drawn. -/
theorem box_is_least (canvas : Canvas) :
    (∀ side ∈ [canvas.box.lo.x, canvas.box.lo.y, canvas.box.hi.x, canvas.box.hi.y], side.isNaN = false) ∧
      (canvas.box.lo.x ≤ 0 ∧ canvas.box.lo.y ≤ 0 ∧ 0 ≤ canvas.box.hi.x ∧ 0 ≤ canvas.box.hi.y) ∧
      (∀ mark ∈ canvas, ∀ p ∈ mark.figure.outline,
        (p.x.isNaN = false → canvas.box.lo.x ≤ p.x ∧ p.x ≤ canvas.box.hi.x) ∧
          (p.y.isNaN = false → canvas.box.lo.y ≤ p.y ∧ p.y ≤ canvas.box.hi.y)) ∧
      (∀ side ∈ [canvas.box.lo.x, canvas.box.hi.x],
        side = 0 ∨ ∃ mark ∈ canvas, ∃ p ∈ mark.figure.outline, p.x = side) ∧
      (∀ side ∈ [canvas.box.lo.y, canvas.box.hi.y],
        side = 0 ∨ ∃ mark ∈ canvas, ∃ p ∈ mark.figure.outline, p.y = side) ∧
      ∀ other : Canvas, canvas.Perm other →
        canvas.box.lo.coincides other.box.lo = true ∧ canvas.box.hi.coincides other.box.hi = true := by
  have hspans := canvas.spans_box
  have hx : (0 : Float32) ∈ (Point.origin :: canvas.points).map Point.x := List.mem_cons_self
  have hy : (0 : Float32) ∈ (Point.origin :: canvas.points).map Point.y := List.mem_cons_self
  refine ⟨?_, ?_, ?_, ?_, ?_, ?_⟩
  · simp only [List.forall_mem_cons, List.not_mem_nil, false_implies, implies_true, and_true]
    exact ⟨hspans.left.isNaN_eq_false picks_least hx rfl, hspans.top.isNaN_eq_false picks_least hy rfl,
      hspans.right.isNaN_eq_false picks_greatest hx rfl, hspans.bottom.isNaN_eq_false picks_greatest hy rfl⟩
  · exact ⟨hspans.left.before 0 hx rfl, hspans.top.before 0 hy rfl, hspans.right.before 0 hx rfl,
      hspans.bottom.before 0 hy rfl⟩
  · intro mark hmark p hp
    have hmem : p ∈ Point.origin :: canvas.points := List.mem_cons_of_mem _ (mem_points.2 ⟨mark, hmark, hp⟩)
    have hpx := List.mem_map_of_mem (f := Point.x) hmem
    have hpy := List.mem_map_of_mem (f := Point.y) hmem
    exact ⟨fun hnumber => ⟨hspans.left.before _ hpx hnumber, hspans.right.before _ hpx hnumber⟩,
      fun hnumber => ⟨hspans.top.before _ hpy hnumber, hspans.bottom.before _ hpy hnumber⟩⟩
  · simp only [List.forall_mem_cons, List.not_mem_nil, false_implies, implies_true, and_true]
    exact ⟨mem_coordinates hspans.left.mem, mem_coordinates hspans.right.mem⟩
  · simp only [List.forall_mem_cons, List.not_mem_nil, false_implies, implies_true, and_true]
    exact ⟨mem_coordinates hspans.top.mem, mem_coordinates hspans.bottom.mem⟩
  · intro other hperm
    have hpoints : (Point.origin :: canvas.points).Perm (Point.origin :: other.points) :=
      (hperm.flatMap_right _).cons _
    exact hspans.coincides other.spans_box hpoints List.mem_cons_self

/-- Two lines with NaN and infinite ends, of which the first begins at no place at all. -/
theorem box_is_least_of_wild_lines :
    let stroke : Stroke := ⟨⟨0, 0, 0⟩, 1⟩
    let first : Mark := ⟨.segment ⟨Number.nan, Number.nan⟩ ⟨3, -1 / 0⟩, stroke⟩
    let second : Mark := ⟨.segment ⟨-2, Number.nan⟩ ⟨Number.nan, 1⟩, stroke⟩
    box [first, second] = ⟨⟨-2, -1 / 0⟩, ⟨3, 1⟩⟩ ∧
      (box [first, second]).lo.coincides (box [second, first]).lo = true ∧
      (box [first, second]).hi.coincides (box [second, first]).hi = true := by
  intro stroke first second
  exact ⟨by decide, (box_is_least [first, second]).2.2.2.2.2 [second, first] (.swap second first [])⟩

end Canvas

end TurtleLogo
