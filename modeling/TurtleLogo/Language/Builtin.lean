/-!
# Built-in commands

The commands that need no definition, the words for them and the arguments each takes. Several words may stand
for one command; the first of them is its name in messages and program texts.
-/

namespace TurtleLogo

inductive Builtin where
  | forward | back | right | left
  | setXY | setPos | setX | setY | setHeading
  | penUp | penDown | setPenSize | setPenColour | setPalette
  | arc
  | ifThen | ifElse | repeatBlock | forever
  | home | make | print | stop | bye
  | define
  deriving DecidableEq, Repr

/-- The form of one argument in a source text. -/
inductive ArgumentForm where
  /-- An expression. -/
  | value
  /-- An expression, bare or in brackets. -/
  | condition
  /-- Statements in brackets. -/
  | block
  /-- Two expressions in brackets. -/
  | point
  /-- A quoted colour, three expressions in brackets, or a palette index. -/
  | colour
  /-- A quoted word. -/
  | word
  deriving DecidableEq, Repr

namespace Builtin

/-- The word for a command in messages and program texts. -/
def name : Builtin → String
  | forward => "forward"
  | back => "back"
  | right => "right"
  | left => "left"
  | setXY => "setxy"
  | setPos => "setpos"
  | setX => "setx"
  | setY => "sety"
  | setHeading => "setheading"
  | penUp => "penup"
  | penDown => "pendown"
  | setPenSize => "setpensize"
  | setPenColour => "setpencolor"
  | setPalette => "setpalette"
  | arc => "arc"
  | ifThen => "if"
  | ifElse => "ifelse"
  | repeatBlock => "repeat"
  | forever => "forever"
  | home => "home"
  | make => "make"
  | print => "show"
  | stop => "stop"
  | bye => "bye"
  | define => "to"

/-- Every word that stands for a command. -/
def words : List (String × Builtin) :=
  [ ("forward", forward), ("fd", forward), ("back", back), ("bk", back), ("backward", back),
    ("right", right), ("rt", right), ("left", left), ("lt", left),
    ("setxy", setXY), ("setpos", setPos), ("setx", setX), ("sety", setY),
    ("setheading", setHeading), ("seth", setHeading),
    ("penup", penUp), ("pu", penUp), ("pendown", penDown), ("pd", penDown),
    ("setpensize", setPenSize), ("setpenwidth", setPenSize),
    ("setpencolor", setPenColour), ("setpc", setPenColour), ("setpalette", setPalette),
    ("arc", arc), ("if", ifThen), ("ifelse", ifElse), ("repeat", repeatBlock), ("forever", forever),
    ("home", home), ("make", make), ("show", print), ("stop", stop), ("bye", bye), ("to", define) ]

/-- The command for a word in lower case. -/
def ofWord? (word : String) : Option Builtin :=
  words.lookup word

/-- The arguments that follow a command word in a source text. A definition has a form of its own. -/
def signature : Builtin → List ArgumentForm
  | forward | back | right | left | setX | setY | setHeading | setPenSize | print => [.value]
  | setXY | arc => [.value, .value]
  | setPos => [.point]
  | setPenColour => [.colour]
  | setPalette => [.value, .colour]
  | ifThen => [.condition, .block]
  | ifElse => [.condition, .block, .block]
  | repeatBlock => [.value, .block]
  | forever => [.block]
  | make => [.word, .value]
  | penUp | penDown | home | stop | bye | define => []

/-- How many operands a command has in a program: its arguments, or the one definition. -/
def operandCount : Builtin → Nat
  | define => 1
  | b => b.signature.length

end Builtin
end TurtleLogo
