import TurtleLogo.Language.Operator
import TurtleLogo.Number.Decimal

/-!
# Errors of a run

Everything that can end a run early. A fault says what went wrong; a runtime error adds the line of the command
that was being executed.
-/

namespace TurtleLogo

/-- What a command can demand of an operand. -/
inductive OperandKind where
  | value
  | block
  | point
  | colour
  | name
  | definition
  deriving DecidableEq, Repr

/-- The kind as messages name it. -/
def OperandKind.text : OperandKind → String
  | value => "an expression"
  | block => "a block"
  | point => "a point"
  | colour => "a colour"
  | name => "a quoted name"
  | definition => "a procedure definition"

inductive Fault where
  | divideByZero
  | paletteIndex (index : Float32)
  | colourIntensity (value : Float32)
  | invalidPenSize (size : Float32)
  | arity (op : String) (expected : Arity) (found : Nat)
  | typeMismatch (op : String) (index : Nat) (expected : OperandKind)
  | undefinedProcedure (name : String) (count : Nat)
  | stopOutsideProcedure
  deriving DecidableEq, Repr

namespace Fault

def message : Fault → String
  | divideByZero => "division by zero"
  | paletteIndex index => "palette index " ++ Number.text index ++ " is outside 0..=15"
  | colourIntensity value => "colour intensity " ++ Number.text value ++ " is outside 0..=99"
  | invalidPenSize size => "pen size " ++ Number.text size ++ " must be at least 1"
  | arity op expected found =>
      "`" ++ op ++ "` expects " ++ expected.text ++ " operand(s), found " ++ toString found
  | typeMismatch op index expected =>
      "operand " ++ toString index ++ " of `" ++ op ++ "` must be " ++ expected.text
  | undefinedProcedure name count => "no procedure `" ++ name ++ "` taking " ++ toString count ++ " argument(s)"
  | stopOutsideProcedure => "`stop` used outside of a procedure"

end Fault

structure RuntimeError where
  line : Nat
  fault : Fault
  deriving DecidableEq, Repr

/-- The line that reports an error of a run. -/
def RuntimeError.text (e : RuntimeError) : String :=
  "[runtime] line " ++ toString e.line ++ ": " ++ e.fault.message

end TurtleLogo
