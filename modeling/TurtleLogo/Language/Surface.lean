import TurtleLogo.Language.Builtin
import TurtleLogo.Language.Operator
import TurtleLogo.Language.Position

/-!
# Surface trees

The statements of a source text as they are written: literals are still text, parentheses and both ways to
apply an operator are kept, and every node knows its position.
-/

namespace TurtleLogo
namespace Surface

/-- An operator between two operands. -/
inductive BinaryOp where
  | add | sub | mul | div | rem | pow
  | less | greater | lessEqual | greaterEqual | equal | notEqual
  deriving DecidableEq, Repr

inductive Expr where
  | number (text : String) (pos : Position)
  | var (name : String) (pos : Position)
  /-- A variable named by a quoted word: `thing "name`. -/
  | thing (name : String) (pos : Position)
  | binary (op : BinaryOp) (left right : Expr) (pos : Position)
  | negate (operand : Expr) (pos : Position)
  /-- An operator word before its operands, with or without parentheses around both. -/
  | apply (op : Operator) (operands : List Expr) (pos : Position)
  | group (inner : Expr) (pos : Position)
  deriving Repr

/-- Where an expression begins. -/
def Expr.pos : Expr → Position
  | number _ pos | var _ pos | thing _ pos | binary _ _ _ pos | negate _ pos | apply _ _ pos
  | group _ pos => pos

inductive ColourArgument where
  | word (text : String) (pos : Position)
  | rgb (red green blue : Expr)
  | index (index : Expr)
  deriving Repr

mutual
inductive Statement where
  | definition (name : String) (params : List String) (body : List Statement) (pos : Position)
  | command (builtin : Builtin) (arguments : List Argument) (pos : Position)
  | call (name : String) (arguments : List Expr) (pos : Position)
inductive Argument where
  | value (e : Expr)
  | block (body : List Statement)
  | point (x y : Expr)
  | colour (c : ColourArgument)
  | word (text : String) (pos : Position)
end

end Surface
end TurtleLogo
