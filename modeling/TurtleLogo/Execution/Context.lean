import TurtleLogo.Drawing.Figure
import TurtleLogo.Drawing.Palette
import TurtleLogo.Execution.Fault
import TurtleLogo.Execution.Scopes

/-!
# The context of a run

All that commands can change. The drawing (turtle, pen, palette and canvas) is kept apart from what decides how the run
goes on: bindings, procedures and the wish to exit. Canvas and transcript only ever grow.
-/

namespace TurtleLogo

structure Turtle where
  position : Point
  /-- In radians, counter-clockwise from the right. -/
  heading : Float32
  deriving DecidableEq, Repr

/-- At the origin and facing up. -/
def Turtle.initial : Turtle := ⟨Point.origin, Number.quarterTurn⟩

structure Pen where
  isDown : Bool
  stroke : Stroke
  deriving DecidableEq, Repr

/-- Down and drawing thin red strokes. -/
def Pen.initial : Pen := ⟨true, ⟨⟨255, 0, 0⟩, 1⟩⟩

structure Drawing where
  turtle : Turtle
  pen : Pen
  palette : Palette
  canvas : Array Mark
  deriving DecidableEq, Repr

namespace Drawing

def initial : Drawing := ⟨Turtle.initial, Pen.initial, Palette.initial, #[]⟩

/-- Leaves a mark on the canvas if the pen is down. -/
def mark (d : Drawing) (figure : Figure) : Drawing :=
  if d.pen.isDown then { d with canvas := d.canvas.push ⟨figure, d.pen.stroke⟩ } else d

/-- Moves the turtle and marks the way. -/
def moveTo (d : Drawing) (target : Point) : Drawing :=
  let marked := d.mark (.segment d.turtle.position target)
  { marked with turtle.position := target }

/-- Turns the turtle to an angle, which is brought into one full turn. -/
def face (d : Drawing) (angle : Float32) : Drawing :=
  { d with turtle.heading := Number.wrapAngle angle }

/-- Turns the turtle counter-clockwise. -/
def turn (d : Drawing) (angle : Float32) : Drawing :=
  d.face (d.turtle.heading + angle)

/-- Marks an arc around the turtle, which stays where it is. -/
def arc (d : Drawing) (sweep radius : Float32) : Drawing :=
  d.mark (.arc ⟨d.turtle.position, d.turtle.heading, radius, sweep⟩)

/-- The turtle as at the start, with the pen down and thin; the colour is kept. -/
def home (d : Drawing) : Drawing :=
  { d with turtle := Turtle.initial, pen := ⟨true, { d.pen.stroke with width := 1 }⟩ }

def setPenDown (d : Drawing) (isDown : Bool) : Drawing :=
  { d with pen.isDown := isDown }

def setPenColour (d : Drawing) (colour : Colour) : Drawing :=
  { d with pen.stroke.colour := colour }

def setPenWidth (d : Drawing) (width : UInt32) : Drawing :=
  { d with pen.stroke.width := width }

def setSlot (d : Drawing) (slot : Fin 16) (colour : Colour) : Drawing :=
  { d with palette := d.palette.put slot colour }

end Drawing

structure Context where
  drawing : Drawing
  /-- The lines that were shown. -/
  transcript : Array String
  scopes : Scopes
  procedures : Procedures
  /-- Set once the program has asked to end. -/
  exiting : Bool

/-- A change of the context by one command. -/
inductive Effect where
  | moveTo (target : Point)
  | face (angle : Float32)
  | turn (angle : Float32)
  | arc (sweep radius : Float32)
  | home
  | setPenDown (isDown : Bool)
  | setPenWidth (width : UInt32)
  | setPenColour (colour : Colour)
  | setSlot (slot : Fin 16) (colour : Colour)
  | bind (name : String) (value : Float32)
  | print (line : String)
  | define (d : Definition)
  | exit
  /-- No change. -/
  | rest

namespace Context

def initial : Context :=
  { drawing := Drawing.initial, transcript := #[], scopes := Scopes.initial, procedures := ∅, exiting := false }

/-! ## Questions -/

/-- The value of a variable. -/
def valueOf (c : Context) (name : String) : Float32 :=
  c.scopes.read name

/-- The slot that a number stands for, or the fault that there is none. -/
def slot (index : Float32) : Except Fault (Fin 16) :=
  match Palette.slotOf? index with
  | some slot => .ok slot
  | none => .error (.paletteIndex (Number.trunc index))

/-- The palette colour that a number stands for. -/
def paletteColour (c : Context) (index : Float32) : Except Fault Colour := do
  let slot ← slot index
  return c.drawing.palette.get slot

/-- The pen width that a number stands for: its whole part, which is at least one. -/
def penWidth (size : Float32) : Except Fault UInt32 :=
  if 1 ≤ size then .ok size.toUInt32 else .error (.invalidPenSize size)

/-! ## Changes -/

def define (c : Context) (d : Definition) : Context :=
  { c with procedures := c.procedures.define d }

/-- The context after one effect. -/
def perform (c : Context) : Effect → Context
  | .moveTo target => { c with drawing := c.drawing.moveTo target }
  | .face angle => { c with drawing := c.drawing.face angle }
  | .turn angle => { c with drawing := c.drawing.turn angle }
  | .arc sweep radius => { c with drawing := c.drawing.arc sweep radius }
  | .home => { c with drawing := c.drawing.home }
  | .setPenDown isDown => { c with drawing := c.drawing.setPenDown isDown }
  | .setPenWidth width => { c with drawing := c.drawing.setPenWidth width }
  | .setPenColour colour => { c with drawing := c.drawing.setPenColour colour }
  | .setSlot slot colour => { c with drawing := c.drawing.setSlot slot colour }
  | .bind name value => { c with scopes := c.scopes.bind name value }
  | .print line => { c with transcript := c.transcript.push line }
  | .define d => c.define d
  | .exit => { c with exiting := true }
  | .rest => c

/-- The context in which the body of a procedure starts. -/
def enterCall (c : Context) (d : Definition) (values : List Float32) : Context :=
  { c with scopes := c.scopes.enter.bindAll d.params values }

/-- The context after the body of a procedure has ended. -/
def leaveCall (c : Context) : Context :=
  { c with scopes := c.scopes.leave }

end Context
end TurtleLogo
