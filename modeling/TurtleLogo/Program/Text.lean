import TurtleLogo.Number.Decimal
import TurtleLogo.Program.Basic

/-!
# Program texts

The canonical text of programs: every operator and command stands before its operands in parentheses, each operand
has its own, and numbers have their shortest texts. `sum 4 3.2` is written `(sum (4) (3.2))`.
-/

namespace TurtleLogo

mutual

def Expression.text : Expression → String
  | .number value => Number.text value
  | .var name => ":" ++ name
  | .apply op operands =>
      if operands.isEmpty then op.name else "(" ++ op.name ++ Expression.listText operands ++ ")"

/-- Each expression in parentheses with a space before it. -/
def Expression.listText : List Expression → String
  | [] => ""
  | e :: rest => " (" ++ e.text ++ ")" ++ Expression.listText rest

end

def ColourExpression.text : ColourExpression → String
  | .palette index => "(palette (" ++ index.text ++ "))"
  | .rgb red green blue => "[" ++ red.text ++ " " ++ green.text ++ " " ++ blue.text ++ "]"
  | .literal colour => colour.hex

mutual

/-- A command that holds one definition has the text of that definition. -/
def Command.text : Command → String
  | ⟨_, [.definition d], _⟩ => d.text
  | ⟨head, operands, _⟩ =>
      if operands.isEmpty then head.name else "(" ++ head.name ++ Operand.listText operands ++ ")"

def Operand.text : Operand → String
  | .value e => e.text
  | .block body => "[" ++ Command.lines body ++ "]"
  | .point x y => "[" ++ x.text ++ " " ++ y.text ++ "]"
  | .colour c => c.text
  | .name name => "\"" ++ name
  | .definition d => d.text

/-- Each operand in parentheses with a space before it. -/
def Operand.listText : List Operand → String
  | [] => ""
  | o :: rest => " (" ++ o.text ++ ")" ++ Operand.listText rest

def Definition.text : Definition → String
  | ⟨name, params, body⟩ =>
      "to " ++ name ++ String.join (params.map fun p => " :" ++ p) ++ "\n" ++ Command.closedLines body ++ "end"

/-- Commands with a line break between them. -/
def Command.lines : List Command → String
  | [] => ""
  | c :: rest => if rest.isEmpty then c.text else c.text ++ "\n" ++ Command.lines rest

/-- Commands with a line break after each. -/
def Command.closedLines : List Command → String
  | [] => ""
  | c :: rest => c.text ++ "\n" ++ Command.closedLines rest

end

/-- The text of a program, one command a line. -/
def Program.text (p : Program) : String :=
  Command.lines p

end TurtleLogo
