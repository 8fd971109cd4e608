/-!
# Operators

The operators of expressions, the words for them and the operands each takes.
-/

namespace TurtleLogo

/-- How many operands an operator accepts. -/
inductive Arity where
  | exactly (count : Nat)
  | oneOrTwo
  | any
  deriving DecidableEq, Repr

namespace Arity

def accepts : Arity → Nat → Bool
  | exactly count, n => n == count
  | oneOrTwo, n => n == 1 || n == 2
  | any, _ => true

/-- The count as messages give it. -/
def text : Arity → String
  | exactly count => toString count
  | oneOrTwo => "1 or 2"
  | any => "any number of"

end Arity

inductive Operator where
  | sum | difference | minus | product | quotient | power | remainder | modulo
  | abs | int | round | sqrt | exp | ln | log10
  | sin | cos | tan | radSin | radCos | radTan | arcTan | radArcTan
  | less | greater | lessEqual | greaterEqual | equal | notEqual
  | conjunction | disjunction | exclusiveOr | negation | truth | falsity
  deriving DecidableEq, Repr

namespace Operator

/-- The word for an operator in messages and program texts. -/
def name : Operator → String
  | sum => "sum"
  | difference => "difference"
  | minus => "minus"
  | product => "product"
  | quotient => "quotient"
  | power => "power"
  | remainder => "remainder"
  | modulo => "modulo"
  | abs => "abs"
  | int => "int"
  | round => "round"
  | sqrt => "sqrt"
  | exp => "exp"
  | ln => "ln"
  | log10 => "log10"
  | sin => "sin"
  | cos => "cos"
  | tan => "tan"
  | radSin => "radsin"
  | radCos => "radcos"
  | radTan => "radtan"
  | arcTan => "arctan"
  | radArcTan => "radarctan"
  | less => "less?"
  | greater => "greater?"
  | lessEqual => "lessEqual?"
  | greaterEqual => "greaterEqual?"
  | equal => "equal?"
  | notEqual => "notEqual?"
  | conjunction => "and"
  | disjunction => "or"
  | exclusiveOr => "xor"
  | negation => "not"
  | truth => "true"
  | falsity => "false"

/-- Every word, in lower case, that stands for an operator. -/
def words : List (String × Operator) :=
  [ ("sum", sum), ("difference", difference), ("minus", minus), ("product", product), ("quotient", quotient),
    ("power", power), ("remainder", remainder), ("modulo", modulo), ("abs", abs), ("int", int),
    ("round", round), ("sqrt", sqrt), ("exp", exp), ("ln", ln), ("log10", log10),
    ("sin", sin), ("cos", cos), ("tan", tan), ("radsin", radSin), ("radcos", radCos), ("radtan", radTan),
    ("arctan", arcTan), ("radarctan", radArcTan),
    ("less?", less), ("lessp", less), ("greater?", greater), ("greaterp", greater),
    ("lessequal?", lessEqual), ("lessequalp", lessEqual),
    ("greaterequal?", greaterEqual), ("greaterequalp", greaterEqual),
    ("equal?", equal), ("equalp", equal), ("notequal?", notEqual), ("notequalp", notEqual),
    ("and", conjunction), ("or", disjunction), ("xor", exclusiveOr), ("not", negation),
    ("true", truth), ("false", falsity) ]

/-- The operator for a word in lower case. -/
def ofWord? (word : String) : Option Operator :=
  words.lookup word

def arity : Operator → Arity
  | sum | product | conjunction | disjunction | exclusiveOr => .any
  | quotient | arcTan | radArcTan => .oneOrTwo
  | truth | falsity => .exactly 0
  | difference | power | remainder | modulo | less | greater | lessEqual | greaterEqual | equal
  | notEqual => .exactly 2
  | minus | abs | int | round | sqrt | exp | ln | log10 | sin | cos | tan | radSin | radCos | radTan
  | negation => .exactly 1

/-- How many operands follow an operator word that no parenthesis precedes. -/
def bareCount (op : Operator) : Nat :=
  match op.arity with
  | .exactly count => count
  | .oneOrTwo => if op = quotient then 2 else 1
  | .any => 2

end Operator
end TurtleLogo
