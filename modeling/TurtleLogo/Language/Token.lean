import TurtleLogo.Language.Position
import TurtleLogo.Text.Quoted

/-!
# Tokens

The words and signs of a source text with their positions. The end of a text is no token: a token list is
followed by the position where the text ends.
-/

namespace TurtleLogo

inductive Lexeme where
  /-- Digits and points as written; their value is found later. -/
  | number (text : String)
  /-- A quoted word without its quote, letters as written. -/
  | word (text : String)
  /-- A variable without its colon, in lower case. -/
  | var (name : String)
  /-- Any other name, in lower case. -/
  | ident (name : String)
  | toKeyword | endKeyword | thingKeyword
  | plus
  /-- A minus sign between operands, or one with a blank after it. -/
  | minus
  /-- A minus sign that begins its operand. -/
  | negate
  | star | slash | percent | caret
  | less | lessEqual | greater | greaterEqual | equal | notEqual
  | openParen | closeParen | openBracket | closeBracket
  deriving DecidableEq, Repr

namespace Lexeme

/-- The token for a name in lower case. -/
def ofName (name : String) : Lexeme :=
  if name = "to" then toKeyword
  else if name = "end" then endKeyword
  else if name = "thing" then thingKeyword
  else ident name

def isKeyword : Lexeme → Bool
  | toKeyword | endKeyword | thingKeyword => true
  | _ => false

/-- The class of a token as messages name it. -/
def className : Lexeme → String
  | number _ => "Number"
  | word _ => "Word"
  | var _ => "Variable"
  | ident _ => "Ident"
  | toKeyword => "To"
  | endKeyword => "End"
  | thingKeyword => "Thing"
  | plus => "Plus"
  | minus => "Minus"
  | negate => "Negate"
  | star => "Star"
  | slash => "Slash"
  | percent => "Percent"
  | caret => "Caret"
  | less => "Lt"
  | lessEqual => "LtEq"
  | greater => "Gt"
  | greaterEqual => "GtEq"
  | equal => "Eq"
  | notEqual => "NotEq"
  | openParen => "LParen"
  | closeParen => "RParen"
  | openBracket => "LBracket"
  | closeBracket => "RBracket"

/-- The text that a token of a class with many members carries. -/
def text? : Lexeme → Option String
  | number text => some text
  | word text => some text
  | var name => some name
  | ident name => some name
  | _ => none

/-- A token as messages show it: its class, with its quoted text in parentheses if it carries one. -/
def describe (l : Lexeme) : String :=
  match l.text? with
  | some text => l.className ++ "(" ++ Text.quoted text ++ ")"
  | none => l.className

/-- What stands at a place as messages show it, `none` being the end of the text. -/
def describeFound : Option Lexeme → String
  | some l => l.describe
  | none => "Eof"

end Lexeme

structure Token where
  lexeme : Lexeme
  pos : Position
  deriving DecidableEq, Repr

/-- The tokens of a text and the position where the text ends. -/
structure Tokens where
  list : List Token
  finish : Position
  deriving DecidableEq, Repr

end TurtleLogo
