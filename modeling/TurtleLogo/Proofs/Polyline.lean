import Mathlib.Data.List.Chain
import TurtleLogo.Page.Layout
import TurtleLogo.Proofs.Building
import TurtleLogo.Proofs.Exiting

/-!
# Drawings in one stroke

A turtle that never lifts its pen and is never sent home draws one unbroken line: whatever way it goes, the next segment
starts where the last one ended. Arcs do not move the turtle, so that they lie around the end of the line as it is then.

* `Canvas.Connects canvas place` — the segments of the canvas lead from the origin to the place without a gap, and each arc
  lies around the place to which those before it lead;
* `Canvas.Connects.segment`, `Canvas.Connects.arc` — new marks of the turtle keep it so;
* `Drawing.Unbroken` — the canvas connects the origin with the turtle, and the pen is down. All effects keep this but those
  of two commands (`Context.unbroken_perform`), and so does every program without them (`Program.preserved_unbroken`).
-/

namespace TurtleLogo

/-! ## Segments of a canvas -/

/-- Both ends of a segment; arcs have none. -/
def Mark.ends? (mark : Mark) : Option (Point × Point) :=
  match mark.figure with
  | .segment start finish => some (start, finish)
  | .arc _ => none

namespace Canvas

/-- The segments in the order they were drawn, arcs left out. -/
def segments (canvas : Canvas) : List (Point × Point) :=
  canvas.filterMap Mark.ends?

/-- Where the last segment ends, or the origin if there is no segment. -/
def trailEnd (canvas : Canvas) : Point :=
  match canvas.segments.getLast? with
  | some (_, finish) => finish
  | none => Point.origin

structure Connects (canvas : Canvas) (place : Point) : Prop where
  /-- The first segment starts at the origin. -/
  first : ∀ segment ∈ canvas.segments.head?, segment.1 = Point.origin
  /-- Every other segment starts where the one before it ends. -/
  joined : canvas.segments.IsChain fun segment next => next.1 = segment.2
  /-- The last segment ends at the place. Without a segment, the place is the origin. -/
  last : place = canvas.trailEnd
  /-- Every arc lies around the end of the last segment before it. -/
  centred : ∀ before arc stroke after, canvas = before ++ ⟨.arc arc, stroke⟩ :: after → arc.center = trailEnd before

section Marks

variable (canvas : Canvas) (stroke : Stroke)

theorem segments_append_segment (start finish : Point) :
    segments (canvas ++ [⟨.segment start finish, stroke⟩]) = canvas.segments ++ [(start, finish)] := by
  simp [segments, Mark.ends?]

theorem segments_append_arc (arc : Arc) : segments (canvas ++ [⟨.arc arc, stroke⟩]) = canvas.segments := by
  simp [segments, Mark.ends?]

theorem trailEnd_append_segment (start finish : Point) :
    trailEnd (canvas ++ [⟨.segment start finish, stroke⟩]) = finish := by
  simp [trailEnd, segments_append_segment]

theorem trailEnd_append_arc (arc : Arc) : trailEnd (canvas ++ [⟨.arc arc, stroke⟩]) = canvas.trailEnd := by
  simp [trailEnd, segments_append_arc]

end Marks

namespace Connects

variable {canvas : Canvas} {place : Point}

theorem nil : Connects [] Point.origin where
  first _ h := by cases h
  joined := List.isChain_nil
  last := rfl
  centred _ _ _ _ h := by simp at h

/-- Where the turtle is, the last segment has ended. -/
theorem eq_of_getLast? (h : Connects canvas place) {segment : Point × Point}
    (hsegment : segment ∈ canvas.segments.getLast?) : place = segment.2 := by
  rw [h.last, trailEnd, Option.mem_def.1 hsegment]

/-- An arc of the longer canvas is one of the shorter canvas or the mark that was added. -/
theorem centred_append (h : Connects canvas place) {mark : Mark}
    (hmark : ∀ arc stroke, mark = ⟨.arc arc, stroke⟩ → arc.center = place) {before after : Canvas} {arc : Arc}
    {stroke : Stroke} (hsplit : canvas ++ [mark] = before ++ ⟨.arc arc, stroke⟩ :: after) :
    arc.center = trailEnd before := by
  rcases split_of_append_eq hsplit with ⟨rest, hcanvas, -⟩ | ⟨rest, rfl, hlast⟩
  · exact h.centred before arc stroke rest hcanvas
  · rcases List.append_eq_singleton_iff.1 hlast.symm with ⟨rfl, hmarks⟩ | ⟨-, hnone⟩
    · rw [List.append_nil, ← h.last]
      exact hmark arc stroke (List.cons.inj hmarks).1.symm
    · cases hnone

theorem segment (h : Connects canvas place) (target : Point) (stroke : Stroke) :
    Connects (canvas ++ [⟨.segment place target, stroke⟩]) target where
  first segment hsegment := by
    rw [segments_append_segment] at hsegment
    cases hsegments : canvas.segments with
    | nil =>
        -- It is the first one, and the turtle has not left the origin.
        rw [hsegments] at hsegment
        cases hsegment
        rw [h.last, trailEnd, hsegments]
        rfl
    | cons start rest =>
        rw [hsegments] at hsegment
        exact h.first segment (by rwa [hsegments])
  joined := by
    rw [segments_append_segment, List.isChain_append]
    refine ⟨h.joined, List.isChain_singleton _, fun segment hsegment next hnext => ?_⟩
    cases hnext
    exact h.eq_of_getLast? hsegment
  last := (trailEnd_append_segment canvas stroke place target).symm
  centred before arc stroke' after := h.centred_append (by simp)

theorem arc (h : Connects canvas place) {arc : Arc} (hcenter : arc.center = place) (stroke : Stroke) :
    Connects (canvas ++ [⟨.arc arc, stroke⟩]) place where
  first := by
    rw [segments_append_arc]
    exact h.first
  joined := by
    rw [segments_append_arc]
    exact h.joined
  last := by
    rw [trailEnd_append_arc]
    exact h.last
  centred before arc' stroke' after := h.centred_append (by simp [hcenter])

end Connects
end Canvas

/-! ## Effects -/

namespace Drawing

/-- The pen is down, and a line leads from the origin to the turtle. -/
structure Unbroken (d : Drawing) : Prop where
  isDown : d.pen.isDown = true
  connects : Canvas.Connects d.canvas.toList d.turtle.position

variable {d : Drawing}

theorem unbroken_initial : initial.Unbroken :=
  ⟨rfl, Canvas.Connects.nil⟩

theorem Unbroken.mark_eq (h : d.Unbroken) (figure : Figure) :
    d.mark figure = { d with canvas := d.canvas.push ⟨figure, d.pen.stroke⟩ } :=
  if_pos h.isDown

theorem Unbroken.moveTo (h : d.Unbroken) (target : Point) : (d.moveTo target).Unbroken := by
  unfold Drawing.moveTo
  rw [h.mark_eq]
  refine ⟨h.isDown, ?_⟩
  rw [Array.toList_push]
  exact h.connects.segment target d.pen.stroke

theorem Unbroken.arc (h : d.Unbroken) (sweep radius : Float32) : (d.arc sweep radius).Unbroken := by
  unfold Drawing.arc
  rw [h.mark_eq]
  refine ⟨h.isDown, ?_⟩
  rw [Array.toList_push]
  exact h.connects.arc rfl d.pen.stroke

end Drawing

/-- Only a lifted pen and the way home break the line. -/
theorem Context.unbroken_perform {c : Context} (h : c.drawing.Unbroken) {e : Effect} (hup : e ≠ .setPenDown false)
    (hhome : e ≠ .home) : (c.perform e).drawing.Unbroken := by
  cases e with
  | moveTo target => exact h.moveTo target
  | arc sweep radius => exact h.arc sweep radius
  | home => exact absurd rfl hhome
  | setPenDown isDown =>
      cases isDown with
      | true => exact ⟨rfl, h.connects⟩
      | false => exact absurd rfl hup
  | face | turn | setPenWidth | setPenColour | setSlot => exact ⟨h.isDown, h.connects⟩
  | bind | print | define | exit | rest => exact h

/-! ## Programs -/

namespace Program

variable {p : Program}

/-- Neither `penup` nor `home` stands anywhere in the program, be it in a block or in the body of a definition. -/
def KeepsDrawing (p : Program) : Prop :=
  ∀ command, p.Holds command → command.head ≠ .builtin .penUp ∧ command.head ≠ .builtin .home

theorem preserved_unbroken (h : p.KeepsDrawing) : Preserved p.Holds fun c => p.Known c ∧ c.drawing.Unbroken where
  effect {command c e} hholds hc hstep := by
    rcases h command hholds with ⟨hpenUp, hhome⟩
    have hsource := Command.source_of_step hstep
    refine ⟨p.preserved_known.effect hholds hc.1 hstep, Context.unbroken_perform hc.2 ?_ ?_⟩
    · rintro rfl
      exact hpenUp hsource
    · rintro rfl
      exact hhome hsource
  enter hholds hc := p.preserved_known.enter hholds hc.1
  call hholds hc hstep :=
    (p.preserved_known.call hholds hc.1 hstep).imp_right fun hknown => ⟨hknown, hc.2⟩
  leave hc := ⟨p.preserved_known.leave hc.1, hc.2⟩

/-- However a program ends that never lifts the pen nor goes home, it has drawn one line from the origin to where the turtle
is, and all its arcs lie around the ends that this line has had. -/
theorem uninterrupted_drawing_is_connected (h : p.KeepsDrawing) {fuel : Nat} {result : Except RuntimeError Unit}
    {m' : Machine} (hrun : Machine.run fuel p Machine.initial = some (result, m')) :
    Canvas.Connects m'.context.drawing.canvas.toList m'.context.drawing.turtle.position := by
  rcases Machine.runs_of_run hrun with ⟨o, hruns, -⟩
  have hinitial : (Machine.initial.enterDefinitions p).context.drawing.Unbroken := by
    rw [Machine.enterDefinitions_eq]
    exact Drawing.unbroken_initial
  have hend := hruns.preserves (preserved_unbroken h) (fun command hmem => .here hmem) ⟨p.known_initial, hinitial⟩
  exact hend.1.2.connects

/-- A procedure that calls itself draws arcs and goes to places that are no numbers, where it never is again. The way back
to the origin is drawn, the way from one zero to the other is not, and at last the program fails. -/
def wanderings : String :=
  "to roam :n arc 90 :n setx :n if :n > 1 [roam :n - 1] sety sqrt -1 end
repeat 2 [roam 2 setxy 0 0 sety -0] setpensize 0"

theorem wanderings_are_connected :
    ∃ p m', compile wanderings = .ok p ∧ p.KeepsDrawing ∧
      Machine.run 12 p Machine.initial = some (.error ⟨2, .invalidPenSize 0⟩, m') ∧
      (Canvas.segments m'.context.drawing.canvas.toList).length = 10 ∧ m'.context.drawing.canvas.size = 14 ∧
      Canvas.Connects m'.context.drawing.canvas.toList m'.context.drawing.turtle.position := by
  have hchecks : (compile wanderings).toOption.map (fun p : Program =>
      (Command.listPasses (fun command => command.head != .builtin .penUp && command.head != .builtin .home) p,
        (Machine.run 12 p Machine.initial).map fun r =>
          (r.1, (Canvas.segments r.2.context.drawing.canvas.toList).length, r.2.context.drawing.canvas.size))) =
        some (true, some (.error ⟨2, .invalidPenSize 0⟩, 10, 14)) := by
    decide +kernel
  rcases Checked.exists_ok_of_toOption hchecks with ⟨p, hcompile, hpasses⟩
  rcases Prod.mk.inj hpasses with ⟨hnone, hend⟩
  have hkeeps : p.KeepsDrawing := by
    intro command hholds
    simpa using Command.listPasses_iff.1 hnone command hholds
  rcases Option.map_eq_some_iff.1 hend with ⟨⟨result, m'⟩, hrun, hsizes⟩
  simp only [Prod.mk.injEq] at hsizes
  rcases hsizes with ⟨rfl, hsegments, hmarks⟩
  exact ⟨p, m', hcompile, hkeeps, hrun, hsegments, hmarks, uninterrupted_drawing_is_connected hkeeps hrun⟩

end Program
end TurtleLogo
