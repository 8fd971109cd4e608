import TurtleLogo.Language.BuildError
import TurtleLogo.Language.Surface
import TurtleLogo.Number.Decimal
import TurtleLogo.Program.Basic

/-!
# From surface trees to programs

Literals get their values here: number texts become numbers and colour words become colours. Everything else can
only change its form. The result is a program, or one error for each bad literal in the order of the text; no part
of a program is made up for a literal without a value.
-/

namespace TurtleLogo

/-- A value, or all errors met on the way to it. -/
abbrev Checked (α : Type) := Except (List BuildError) α

namespace Checked

/-- Joins two checked values; the errors of the first come first. -/
def map₂ {α β γ : Type} (f : α → β → γ) : Checked α → Checked β → Checked γ
  | .ok a, .ok b => .ok (f a b)
  | .ok _, .error errors => .error errors
  | .error errors, .ok _ => .error errors
  | .error errors, .error more => .error (errors ++ more)

end Checked

open Surface (BinaryOp)

/-- The operator that a sign between operands stands for. -/
def Surface.BinaryOp.operator : BinaryOp → Operator
  | .add => .sum
  | .sub => .difference
  | .mul => .product
  | .div => .quotient
  | .rem => .remainder
  | .pow => .power
  | .less => .less
  | .greater => .greater
  | .lessEqual => .lessEqual
  | .greaterEqual => .greaterEqual
  | .equal => .equal
  | .notEqual => .notEqual

/-! ## Literals -/

/-- The value of a number text. -/
def numberLiteral (text : String) (pos : Position) : Checked Float32 :=
  match Number.read? text.toList with
  | some value => .ok value
  | none => .error [⟨pos, .malformedNumber text⟩]

/-- The colour of a word: `#rrggbb`, or a colour name. -/
def colourWord (word : String) (pos : Position) : Except BuildError Colour :=
  if word.toList.head? = some '#' then
    match Colour.ofHex? word with
    | some colour => .ok colour
    | none => .error ⟨pos, .malformedColour word⟩
  else
    match Colour.named? word with
    | some colour => .ok colour
    | none => .error ⟨pos, .unknownColour word⟩

/-! ## Expressions -/

mutual

def Expression.ofSurface : Surface.Expr → Checked Expression
  | .number text pos => (numberLiteral text pos).map .number
  | .var name _ => .ok (.var name)
  | .thing name _ => .ok (.var name)
  | .binary op left right _ =>
      Checked.map₂ (fun l r => .apply op.operator [l, r]) (Expression.ofSurface left)
        (Expression.ofSurface right)
  | .negate operand _ => (Expression.ofSurface operand).map fun e => .apply .minus [e]
  | .apply op operands _ => (Expression.listOfSurface operands).map (.apply op)
  | .group inner _ => Expression.ofSurface inner

def Expression.listOfSurface : List Surface.Expr → Checked (List Expression)
  | [] => .ok []
  | e :: rest => Checked.map₂ List.cons (Expression.ofSurface e) (Expression.listOfSurface rest)

end

def ColourExpression.ofSurface : Surface.ColourArgument → Checked ColourExpression
  | .word text pos =>
      match colourWord text pos with
      | .ok colour => .ok (.literal colour)
      | .error error => .error [error]
  | .rgb red green blue =>
      Checked.map₂ (fun f b => f b)
        (Checked.map₂ ColourExpression.rgb (Expression.ofSurface red) (Expression.ofSurface green))
        (Expression.ofSurface blue)
  | .index index => (Expression.ofSurface index).map .palette

/-! ## Commands -/

mutual

def Command.ofSurface : Surface.Statement → Checked Command
  | .definition name params body pos =>
      (Command.listOfSurface body).map fun commands =>
        ⟨.builtin .define, [.definition ⟨name, params, commands⟩], pos⟩
  | .command builtin arguments pos =>
      (Operand.listOfSurface arguments).map fun operands => ⟨.builtin builtin, operands, pos⟩
  | .call name arguments pos =>
      (Expression.listOfSurface arguments).map fun values => ⟨.call name, values.map .value, pos⟩

def Operand.ofSurface : Surface.Argument → Checked Operand
  | .value e => (Expression.ofSurface e).map .value
  | .block body => (Command.listOfSurface body).map .block
  | .point x y => Checked.map₂ .point (Expression.ofSurface x) (Expression.ofSurface y)
  | .colour c => (ColourExpression.ofSurface c).map .colour
  | .word text _ => .ok (.name text.toLower)

def Operand.listOfSurface : List Surface.Argument → Checked (List Operand)
  | [] => .ok []
  | a :: rest => Checked.map₂ List.cons (Operand.ofSurface a) (Operand.listOfSurface rest)

def Command.listOfSurface : List Surface.Statement → Checked (List Command)
  | [] => .ok []
  | s :: rest => Checked.map₂ List.cons (Command.ofSurface s) (Command.listOfSurface rest)

end

end TurtleLogo
