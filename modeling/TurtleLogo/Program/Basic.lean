import TurtleLogo.Drawing.Colour
import TurtleLogo.Language.Builtin
import TurtleLogo.Language.Operator
import TurtleLogo.Language.Position

/-!
# Programs

What runs: commands with operands. Literals have their values, all ways to write an operator have become one, and
positions remain only at commands. Nothing here promises that a command has the operands it needs; that is checked
when it runs, and holds of every program that was read from a source text.
-/

namespace TurtleLogo

inductive Expression where
  | number (value : Float32)
  | var (name : String)
  | apply (op : Operator) (operands : List Expression)
  deriving Repr

/-- How a command chooses a colour. -/
inductive ColourExpression where
  | palette (index : Expression)
  | rgb (red green blue : Expression)
  | literal (colour : Colour)
  deriving Repr

/-- What a command does: a built-in, or the procedure with a name. -/
inductive Head where
  | builtin (builtin : Builtin)
  | call (name : String)
  deriving DecidableEq, Repr

mutual

structure Command where
  head : Head
  operands : List Operand
  pos : Position

inductive Operand where
  | value (e : Expression)
  | block (body : List Command)
  | point (x y : Expression)
  | colour (c : ColourExpression)
  /-- A name given as a quoted word. -/
  | name (name : String)
  | definition (d : Definition)

structure Definition where
  name : String
  params : List String
  body : List Command

end

/-- A program is a list of commands; definitions are commands too. -/
abbrev Program := List Command

/-- The word of a head in messages and program texts. -/
def Head.name : Head → String
  | builtin b => b.name
  | call name => name

namespace Command

/-- The definition that a command consists of. -/
def definition? (c : Command) : Option Definition :=
  match c.operands with
  | [.definition d] => some d
  | _ => none

end Command
end TurtleLogo
