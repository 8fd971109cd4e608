import TurtleLogo.Execution.Context
import TurtleLogo.Execution.Evaluation

/-!
# What a command amounts to

Before a command changes anything, its operands are checked and evaluated in the context as it stands. The result is a
fault, or a step that can no longer fail by itself: an effect, a stop, or blocks and bodies still to be run. A command
that fails on its own account therefore leaves the context as it was.
-/

namespace TurtleLogo

/-- What is left to do for a command whose operands are evaluated. -/
inductive Step where
  | effect (e : Effect)
  /-- Leave the procedure. -/
  | stop
  | run (body : List Command)
  /-- Run a block a number of times. -/
  | times (count : Nat) (body : List Command)
  /-- Run a block until the program exits. -/
  | forever (body : List Command)
  | call (d : Definition) (values : List Float32)

/-! ## Operands -/

namespace Operand

/-- The expression of the operand with this index of `op`. -/
def asValue (op : String) (index : Nat) : Operand → Except Fault Expression
  | value e => .ok e
  | _ => .error (.typeMismatch op index .value)

def asBlock (op : String) (index : Nat) : Operand → Except Fault (List Command)
  | block body => .ok body
  | _ => .error (.typeMismatch op index .block)

def asPoint (op : String) (index : Nat) : Operand → Except Fault (Expression × Expression)
  | point x y => .ok (x, y)
  | _ => .error (.typeMismatch op index .point)

def asColour (op : String) (index : Nat) : Operand → Except Fault ColourExpression
  | colour c => .ok c
  | _ => .error (.typeMismatch op index .colour)

def asName (op : String) (index : Nat) : Operand → Except Fault String
  | name n => .ok n
  | _ => .error (.typeMismatch op index .name)

def asDefinition (op : String) (index : Nat) : Operand → Except Fault Definition
  | definition d => .ok d
  | _ => .error (.typeMismatch op index .definition)

end Operand

namespace Context

/-- The value of an expression. -/
def eval (c : Context) (e : Expression) : Except Fault Float32 :=
  e.eval c.valueOf

/-- The point of two expressions. -/
def evalPoint (c : Context) (x y : Expression) : Except Fault Point := do
  let xValue ← c.eval x
  let yValue ← c.eval y
  return ⟨xValue, yValue⟩

/-- The channel of an intensity. -/
def evalChannel (c : Context) (e : Expression) : Except Fault UInt8 := do
  let value ← c.eval e
  match Colour.ofIntensity? value with
  | some channel => return channel
  | none => throw (.colourIntensity value)

/-- The colour that a command chooses. -/
def evalColour (c : Context) : ColourExpression → Except Fault Colour
  | .literal colour => .ok colour
  | .palette index => do
      let value ← c.eval index
      c.paletteColour value
  | .rgb red green blue => do
      let r ← c.evalChannel red
      let g ← c.evalChannel green
      let b ← c.evalChannel blue
      return ⟨r, g, b⟩

/-- The value of an operand that must be an expression. -/
def evalOperand (c : Context) (op : String) (index : Nat) (operand : Operand) : Except Fault Float32 := do
  let e ← operand.asValue op index
  c.eval e

/-- The values of the operands of a call from left to right, the first of them having this index. -/
def evalArguments (c : Context) (op : String) (index : Nat) : List Operand → Except Fault (List Float32)
  | [] => .ok []
  | operand :: rest => do
      let value ← c.evalOperand op index operand
      let values ← c.evalArguments op (index + 1) rest
      return value :: values

/-- The place that lies ahead of the turtle. -/
def ahead (c : Context) (distance : Float32) : Point :=
  c.drawing.turtle.position.along c.drawing.turtle.heading distance

/-- The way to a place given by its coordinates; there is none to the place where the turtle is. -/
def jumpTo (c : Context) (target : Point) : Effect :=
  if target.coincides c.drawing.turtle.position then .rest else .moveTo target

end Context

/-! ## Commands -/

/-- The step of a built-in command; any list of operands that no row before the last one takes has the wrong
length. -/
def Builtin.step (c : Context) (b : Builtin) (operands : List Operand) : Except Fault Step :=
  match b, operands with
  | forward, [a] => do
      let distance ← c.evalOperand b.name 0 a
      return .effect (.moveTo (c.ahead distance))
  | back, [a] => do
      let distance ← c.evalOperand b.name 0 a
      return .effect (.moveTo (c.ahead (-distance)))
  | right, [a] => do
      let degrees ← c.evalOperand b.name 0 a
      return .effect (.turn (-Number.toRadians degrees))
  | left, [a] => do
      let degrees ← c.evalOperand b.name 0 a
      return .effect (.turn (Number.toRadians degrees))
  | setXY, [a₀, a₁] => do
      let x ← c.evalOperand b.name 0 a₀
      let y ← c.evalOperand b.name 1 a₁
      return .effect (c.jumpTo ⟨x, y⟩)
  | setPos, [a] => do
      let (x, y) ← a.asPoint b.name 0
      let target ← c.evalPoint x y
      return .effect (c.jumpTo target)
  | setX, [a] => do
      let x ← c.evalOperand b.name 0 a
      return .effect (c.jumpTo ⟨x, c.drawing.turtle.position.y⟩)
  | setY, [a] => do
      let y ← c.evalOperand b.name 0 a
      return .effect (c.jumpTo ⟨c.drawing.turtle.position.x, y⟩)
  | setHeading, [a] => do
      -- A compass bearing: zero is up, and angles grow clockwise.
      let bearing ← c.evalOperand b.name 0 a
      return .effect (.face (Number.quarterTurn - Number.toRadians bearing))
  | penUp, [] => .ok (.effect (.setPenDown false))
  | penDown, [] => .ok (.effect (.setPenDown true))
  | setPenSize, [a] => do
      let size ← c.evalOperand b.name 0 a
      let width ← Context.penWidth size
      return .effect (.setPenWidth width)
  | setPenColour, [a] => do
      let choice ← a.asColour b.name 0
      let colour ← c.evalColour choice
      return .effect (.setPenColour colour)
  | setPalette, [a₀, a₁] => do
      let index ← c.evalOperand b.name 0 a₀
      let choice ← a₁.asColour b.name 1
      let colour ← c.evalColour choice
      let slot ← Context.slot index
      return .effect (.setSlot slot colour)
  | arc, [a₀, a₁] => do
      let degrees ← c.evalOperand b.name 0 a₀
      let radius ← c.evalOperand b.name 1 a₁
      return .effect (.arc (Number.toRadians degrees) radius)
  | ifThen, [a₀, a₁] => do
      let condition ← c.evalOperand b.name 0 a₀
      if Number.truth condition then return .run (← a₁.asBlock b.name 1) else return .effect .rest
  | ifElse, [a₀, a₁, a₂] => do
      let condition ← c.evalOperand b.name 0 a₀
      if Number.truth condition then return .run (← a₁.asBlock b.name 1)
      else return .run (← a₂.asBlock b.name 2)
  | repeatBlock, [a₀, a₁] => do
      let count ← c.evalOperand b.name 0 a₀
      let body ← a₁.asBlock b.name 1
      return .times (Number.repeatCount count) body
  | forever, [a] => do
      let body ← a.asBlock b.name 0
      return .forever body
  | home, [] => .ok (.effect .home)
  | make, [a₀, a₁] => do
      let name ← a₀.asName b.name 0
      let value ← c.evalOperand b.name 1 a₁
      return .effect (.bind name value)
  | print, [a] => do
      let value ← c.evalOperand b.name 0 a
      return .effect (.print (Number.text value))
  | stop, [] => .ok .stop
  | bye, [] => .ok (.effect .exit)
  | define, [a] => do
      let d ← a.asDefinition b.name 0
      return .effect (.define d)
  | b, operands => .error (.arity b.name (.exactly b.operandCount) operands.length)

/-- The step of a call. Its arguments see the bindings of the caller. -/
def Context.callStep (c : Context) (name : String) (operands : List Operand) : Except Fault Step :=
  match c.procedures.find? name operands.length with
  | none => .error (.undefinedProcedure name operands.length)
  | some d => do
      let values ← c.evalArguments name 0 operands
      return .call d values

/-- The step of a command. -/
def Command.step (c : Context) (command : Command) : Except Fault Step :=
  match command.head with
  | .builtin b => b.step c command.operands
  | .call name => c.callStep name command.operands

end TurtleLogo
