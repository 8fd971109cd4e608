import TurtleLogo.Proofs.Enclosure
import TurtleLogo.Proofs.Places
import TurtleLogo.Proofs.Unrolling

/-!
# Drawings inside their pages

A page moves all figures by one vector, but the coordinates are rounded one by one, and the size of the page is rounded on its
own. That nothing sticks out rests on the order of sums:

* `Number.shifted_within` — what lies between two numbers lies between zero and their difference after the lesser one is
  subtracted, whatever is rounded or overflows on the way;
* `Canvas.lo_box_of_nonneg` — a drawing without negative coordinates has its box at the origin;
* `Canvas.shift_offset_of_lo_box` — and is not moved again.
-/

namespace TurtleLogo

/-! ## Numbers -/

namespace Number

/-- The whole part of a number that is not negative, up to a limit. -/
def wholeWithin (limit : Nat) (x : Float32) : Nat :=
  if x.isInf then limit else min (steps x / stepsPerOne) limit

theorem not_lt_of_le {x y : Float32} (h : x ≤ y) : ¬ y < x := by
  intro hlt
  exact (le_iff_rank.1 h).2.2.not_gt (lt_iff_rank.1 hlt).2.2

theorem toNat_toUInt32 {x : Float32} (h : 0 ≤ x) : x.toUInt32.toNat = wholeWithin (twoTo 32 - 1) x := by
  have hclamp (n : Nat) : (UInt32.ofNatClamp n).toNat = min n (twoTo 32 - 1) := by
    have hsize : UInt32.size - 1 = twoTo 32 - 1 := rfl
    unfold UInt32.ofNatClamp
    split <;> rw [UInt32.toNat_ofNatLT, ← hsize] <;> omega
  have hcast : x.toUInt32 = UInt32.ofNatClamp ((unpacked x).toInt 0 (UInt32.size - 1)).toNat := rfl
  rw [hcast, hclamp, toNat_toInt (isNaN_of_le h) (not_lt_of_le h), wholeWithin]
  split <;> rfl

theorem shifted_within {numbers : List Float32} {low high x : Float32} (hfinite : ∀ y ∈ numbers, y.isFinite = true)
    (hlow : Foremost (· ≤ ·) numbers low) (hhigh : Foremost (· ≥ ·) numbers high) (hx : x ∈ numbers) :
    0 ≤ x + -low ∧ x + -low ≤ high - low := by
  have hlowFinite := hfinite low hlow.mem
  have hhighFinite := hfinite high hhigh.mem
  have hxFinite := hfinite x hx
  have hnumber := (isNaN_isInf_of_isFinite hxFinite).1
  have hopposite := isFinite_neg hlowFinite
  constructor
  · have hsum := add_le_add_same hlowFinite hxFinite hopposite (hlow.before x hx hnumber)
    rwa [add_opposite hlowFinite] at hsum
  · rw [sub_eq_add high hlowFinite]
    exact add_le_add_same hxFinite hhighFinite hopposite (hhigh.before x hx hnumber)

theorem least_zero {x : Float32} (h : 0 ≤ x) : least 0 x = 0 := by
  rw [least, if_neg (by decide), if_neg (not_lt_of_le h)]

end Number

/-! ## Drawings of lines -/

/-- Both coordinates are finite. -/
def Point.IsFinite (p : Point) : Prop :=
  p.x.isFinite = true ∧ p.y.isFinite = true

/-- A straight line between places with finite coordinates. -/
def Figure.IsFiniteLine (f : Figure) : Prop :=
  ∃ start finish, f = .segment start finish ∧ start.IsFinite ∧ finish.IsFinite

/-- No coordinate is negative. -/
def Point.Nonneg (p : Point) : Prop :=
  0 ≤ p.x ∧ 0 ≤ p.y

/-- The point lies between the origin and another one. -/
def Point.Within (p size : Point) : Prop :=
  (0 ≤ p.x ∧ p.x ≤ size.x) ∧ (0 ≤ p.y ∧ p.y ≤ size.y)

namespace Figure

theorem IsFiniteLine.isFinite_outline {f : Figure} (h : f.IsFiniteLine) : ∀ p ∈ f.outline, p.IsFinite := by
  rcases h with ⟨start, finish, rfl, hstart, hfinish⟩
  simp [outline, firstPoint, furtherPoints, hstart, hfinish]

theorem IsFiniteLine.outline_shift {f : Figure} (h : f.IsFiniteLine) (offset : Point) :
    (f.shift offset).outline = f.outline.map (·.shift offset) := by
  rcases h with ⟨start, finish, rfl, -, -⟩
  rfl

end Figure

/-- The size of a box before it is cut to whole units. -/
def Box.size (b : Box) : Point :=
  ⟨b.hi.x - b.lo.x, b.hi.y - b.lo.y⟩

namespace Canvas

variable {canvas : Canvas}

theorem isFinite_points (h : ∀ mark ∈ canvas, mark.figure.IsFiniteLine) : ∀ p ∈ Point.origin :: canvas.points, p.IsFinite := by
  intro p hmem
  rcases List.mem_cons.1 hmem with rfl | hmem
  · exact ⟨rfl, rfl⟩
  · rcases mem_points.1 hmem with ⟨mark, hmark, hp⟩
    exact (h mark hmark).isFinite_outline p hp

theorem within_shift_offset (h : ∀ mark ∈ canvas, mark.figure.IsFiniteLine) {p : Point}
    (hmem : p ∈ Point.origin :: canvas.points) : (p.shift canvas.box.offset).Within canvas.box.size := by
  have hspans := canvas.spans_box
  have hfinite := isFinite_points h
  have hxs : ∀ x ∈ (Point.origin :: canvas.points).map Point.x, x.isFinite = true :=
    List.forall_mem_map.2 fun q hq => (hfinite q hq).1
  have hys : ∀ y ∈ (Point.origin :: canvas.points).map Point.y, y.isFinite = true :=
    List.forall_mem_map.2 fun q hq => (hfinite q hq).2
  exact ⟨Number.shifted_within hxs hspans.left hspans.right (List.mem_map_of_mem hmem),
    Number.shifted_within hys hspans.top hspans.bottom (List.mem_map_of_mem hmem)⟩

theorem within_of_mem_shift (h : ∀ mark ∈ canvas, mark.figure.IsFiniteLine) {mark : Mark}
    (hmark : mark ∈ canvas.shift canvas.box.offset) {p : Point} (hp : p ∈ mark.figure.outline) : p.Within canvas.box.size := by
  rcases List.mem_map.1 hmark with ⟨unmoved, hunmoved, rfl⟩
  rw [(h unmoved hunmoved).outline_shift] at hp
  rcases List.mem_map.1 hp with ⟨q, hq, rfl⟩
  exact within_shift_offset h (List.mem_cons_of_mem _ (mem_points.2 ⟨unmoved, hunmoved, hq⟩))

/-! ## Drawings at the origin -/

/-- Joining a figure without negative coordinates leaves the least corner at the origin. -/
theorem lo_join_of_nonneg {b : Box} {f : Figure} (hb : b.lo = Point.origin) (hf : ∀ p ∈ f.outline, p.Nonneg) :
    (b.join f.box).lo = Point.origin := by
  have hspans := f.spans_box
  rcases List.mem_map.1 hspans.left.mem with ⟨p, hp, hx⟩
  rcases List.mem_map.1 hspans.top.mem with ⟨q, hq, hy⟩
  rw [Box.join, hb, Point.least, ← hx, ← hy]
  exact congrArg₂ Point.mk (Number.least_zero (hf p hp).1) (Number.least_zero (hf q hq).2)

theorem lo_box_of_nonneg (h : ∀ mark ∈ canvas, ∀ p ∈ mark.figure.outline, p.Nonneg) : canvas.box.lo = Point.origin := by
  have hfold (b : Box) (hb : b.lo = Point.origin) :
      (canvas.foldl (fun box mark => box.join mark.figure.box) b).lo = Point.origin := by
    induction canvas generalizing b with
    | nil => exact hb
    | cons mark rest ih =>
        rcases List.forall_mem_cons.1 h with ⟨hmark, hrest⟩
        exact ih hrest _ (lo_join_of_nonneg hb hmark)
  exact hfold (Box.ofPoint Point.origin) rfl

theorem shift_offset_of_lo_box (h : canvas.box.lo = Point.origin) : canvas.shift canvas.box.offset = canvas := by
  have hpoint (p : Point) : p.shift canvas.box.offset = p := by
    rw [Box.offset, h]
    exact congrArg₂ Point.mk (Number.add_negative_zero p.x) (Number.add_negative_zero p.y)
  have hfigure (f : Figure) : f.shift canvas.box.offset = f := by
    cases f with
    | segment start finish => rw [Figure.shift, hpoint, hpoint]
    | arc a => rw [Figure.shift, hpoint]
  have hmark (mark : Mark) : { mark with figure := mark.figure.shift canvas.box.offset } = mark := by
    rw [hfigure]
  simp only [shift, hmark, List.map_id']

end Canvas

/-- A drawing of finite lines, of any number and extent, is moved onto its page. Each line stays in its place among the others
and keeps its stroke, and its ends are moved by one vector. After that no coordinate is negative or greater than the size of the
box before the move; the page has this size, cut to whole units of thirty-two bits; and the box begins exactly at the origin.
So a page is a drawing that the next layout leaves as it is. -/
theorem Page.lines_are_framed (canvas : Canvas) (h : ∀ mark ∈ canvas, mark.figure.IsFiniteLine) :
    let page := Page.layout canvas
    List.Forall₂ (fun before after => after.stroke = before.stroke ∧ ∃ start finish,
        before.figure = .segment start finish ∧
          after.figure = .segment (start.shift canvas.box.offset) (finish.shift canvas.box.offset)) canvas page.canvas ∧
      (∀ mark ∈ page.canvas, ∀ p ∈ mark.figure.outline,
        (0 ≤ p.x ∧ p.x ≤ canvas.box.hi.x - canvas.box.lo.x) ∧ (0 ≤ p.y ∧ p.y ≤ canvas.box.hi.y - canvas.box.lo.y)) ∧
      (page.width.toNat = Number.wholeWithin (2 ^ 32 - 1) (canvas.box.hi.x - canvas.box.lo.x) ∧
        page.height.toNat = Number.wholeWithin (2 ^ 32 - 1) (canvas.box.hi.y - canvas.box.lo.y)) ∧
      page.canvas.box.lo = Point.origin ∧
      (Page.layout page.canvas).canvas = page.canvas := by
  intro page
  have hwithin : ∀ mark ∈ page.canvas, ∀ p ∈ mark.figure.outline, p.Within canvas.box.size := fun mark hmark p hp =>
    Canvas.within_of_mem_shift h hmark hp
  have horigin := Canvas.within_shift_offset h (p := Point.origin) List.mem_cons_self
  have hlo : page.canvas.box.lo = Point.origin :=
    Canvas.lo_box_of_nonneg fun mark hmark p hp => ⟨(hwithin mark hmark p hp).1.1, (hwithin mark hmark p hp).2.1⟩
  refine ⟨?_, hwithin, ⟨?_, ?_⟩, hlo, Canvas.shift_offset_of_lo_box hlo⟩
  · refine List.forall₂_map_right_iff.2 (List.forall₂_same.2 fun mark hmark => ⟨rfl, ?_⟩)
    rcases h mark hmark with ⟨start, finish, hfigure, -, -⟩
    exact ⟨start, finish, hfigure, congrArg (Figure.shift canvas.box.offset) hfigure⟩
  · exact Number.toNat_toUInt32 (Number.le_transitive horigin.1.1 horigin.1.2)
  · exact Number.toNat_toUInt32 (Number.le_transitive horigin.2.1 horigin.2.2)

/-- The far end of the first line is moved to infinity, and the page is as wide as it can be. -/
theorem Page.overflowing_lines_are_framed :
    let stroke : Stroke := ⟨⟨0, 0, 0⟩, 1⟩
    let far : Mark := ⟨.segment ⟨-3e38, 0.1⟩ ⟨3e38, -0.2⟩, stroke⟩
    let near : Mark := ⟨.segment ⟨7, -0⟩ ⟨0, 2.7⟩, stroke⟩
    let page := Page.layout [far, near]
    (∀ mark ∈ [far, near], mark.figure.IsFiniteLine) ∧ page.width.toNat = 4294967295 ∧ page.height.toNat = 2 ∧
      page.canvas.box = ⟨⟨0, 0⟩, ⟨1 / 0, 2.7 - -0.2⟩⟩ ∧ (Page.layout page.canvas).canvas = page.canvas := by
  intro stroke far near page
  have hlines : ∀ mark ∈ [far, near], mark.figure.IsFiniteLine := by
    simp only [List.forall_mem_cons, List.not_mem_nil, false_implies, implies_true, and_true]
    exact ⟨⟨_, _, rfl, ⟨by decide +kernel, by decide +kernel⟩, ⟨by decide +kernel, by decide +kernel⟩⟩,
      ⟨_, _, rfl, ⟨by decide, by decide⟩, ⟨by decide, by decide⟩⟩⟩
  rcases Page.lines_are_framed [far, near] hlines with ⟨-, -, ⟨hwidth, hheight⟩, -, hagain⟩
  exact ⟨hlines, hwidth.trans (by decide +kernel), hheight.trans (by decide +kernel), by decide +kernel, hagain⟩

end TurtleLogo
