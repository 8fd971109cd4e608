import TurtleLogo.Execution.Fault
import TurtleLogo.Number.Arithmetic
import TurtleLogo.Number.Elementary
import TurtleLogo.Program.Basic

/-!
# Evaluation of expressions

An expression has a value as soon as its variables have. Evaluation fails only when an operator gets a number of
operands it does not accept or when a divisor is zero, and then with the leftmost innermost such fault.
-/

namespace TurtleLogo

/-- Fails when a divisor is zero. -/
def nonzero (divisor : Float32) : Except Fault Unit :=
  if divisor == 0 then .error .divideByZero else .ok ()

namespace Operator

/-- The value of an operator at given operands; any list that no row before the last one takes has a length that
the operator does not accept. -/
def eval (op : Operator) (operands : List Float32) : Except Fault Float32 :=
  match op, operands with
  | sum, xs => .ok (xs.foldl (· + ·) (-0.0))
  | product, xs => .ok (xs.foldl (· * ·) 1)
  | difference, [a, b] => .ok (a - b)
  | minus, [a] => .ok (-a)
  | quotient, [d] => do nonzero d; return 1 / d
  | quotient, [a, d] => do nonzero d; return a / d
  | power, [a, b] => .ok (Number.power a b)
  | remainder, [a, b] => do nonzero b; return (Number.rem a b).abs * Number.signum a
  | modulo, [a, b] => do nonzero b; return (Number.rem a b).abs * Number.signum b
  | abs, [a] => .ok a.abs
  | int, [a] => .ok (Number.trunc a)
  | round, [a] => .ok (Number.trunc (a + 0.5))
  | sqrt, [a] => .ok a.sqrt
  | exp, [a] => .ok (Number.exp a)
  | ln, [a] => .ok (Number.ln a)
  | log10, [a] => .ok (Number.log10 a)
  | sin, [a] => .ok (Number.sin a)
  | cos, [a] => .ok (Number.cos a)
  | tan, [a] => .ok (Number.tan a)
  | radSin, [a] => .ok (Number.sin (Number.toRadians a))
  | radCos, [a] => .ok (Number.cos (Number.toRadians a))
  | radTan, [a] => .ok (Number.tan (Number.toRadians a))
  | arcTan, [a] => .ok (Number.arctan a)
  | arcTan, [y, x] => .ok (Number.arctan₂ y x)
  | radArcTan, [a] => .ok (Number.arctan (Number.toRadians a))
  | radArcTan, [y, x] => .ok (Number.arctan₂ (Number.toRadians y) (Number.toRadians x))
  | less, [a, b] => .ok (Number.ofTruth (a < b))
  | greater, [a, b] => .ok (Number.ofTruth (b < a))
  | lessEqual, [a, b] => .ok (Number.ofTruth (a ≤ b))
  | greaterEqual, [a, b] => .ok (Number.ofTruth (b ≤ a))
  | equal, [a, b] => .ok (Number.ofTruth (a == b))
  | notEqual, [a, b] => .ok (Number.ofTruth (a != b))
  | conjunction, xs => .ok (Number.ofTruth (xs.all Number.truth))
  | disjunction, xs => .ok (Number.ofTruth (xs.any Number.truth))
  | exclusiveOr, xs => .ok (Number.ofTruth (xs.foldl (fun odd x => odd ^^ Number.truth x) false))
  | negation, [a] => .ok (Number.ofTruth (!Number.truth a))
  | truth, [] => .ok (Number.ofTruth true)
  | falsity, [] => .ok (Number.ofTruth false)
  | op, operands => .error (.arity op.name op.arity operands.length)

end Operator

mutual

/-- The value of an expression when `vars` gives the values of variables. -/
def Expression.eval (vars : String → Float32) : Expression → Except Fault Float32
  | .number value => .ok value
  | .var name => .ok (vars name)
  | .apply op operands => do
      let values ← Expression.evalAll vars operands
      op.eval values

/-- The values of expressions from left to right. -/
def Expression.evalAll (vars : String → Float32) : List Expression → Except Fault (List Float32)
  | [] => .ok []
  | e :: rest => do
      let value ← e.eval vars
      let values ← Expression.evalAll vars rest
      return value :: values

end

end TurtleLogo
