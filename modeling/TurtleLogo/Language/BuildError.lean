import TurtleLogo.Language.Token

/-!
# Errors found before a program runs

Each error has a cause and a position. The code of a cause names the phase that found it, `L` for scanning,
`P` for parsing and `B` for the check of literals.
-/

namespace TurtleLogo

namespace BuildError

/-- What could have stood at the place of an unexpected token. -/
inductive Wanted where
  | command
  | expression
  | endOfInput
  deriving DecidableEq, Repr

def Wanted.text : Wanted → String
  | command => "command"
  | expression => "expression"
  | endOfInput => "end of input"

inductive Cause where
  | unexpectedCharacter (c : Char)
  | emptyWord
  | emptyVariable
  /-- The text goes on with something that cannot stand here. -/
  | unexpected (wanted : Wanted) (found : Option Lexeme)
  /-- An operator stands where a command must. -/
  | valueAsCommand (name : String)
  | unknownOperator (name : String)
  /-- One certain token is missing. -/
  | missing (wanted : Lexeme) (found : Option Lexeme)
  | missingProcedureName
  | missingName (found : Option Lexeme)
  | missingNameAfterThing (found : Option Lexeme)
  | reservedName (name : String)
  | reservedKeyword (keyword : Lexeme)
  | nestedDefinition
  /-- A procedure stands where a value must. -/
  | procedureAsValue (name : String)
  | malformedColour (word : String)
  | unknownColour (word : String)
  | malformedNumber (text : String)
  deriving DecidableEq, Repr

namespace Cause

def code : Cause → String
  | unexpectedCharacter _ => "L001"
  | emptyWord | emptyVariable => "L002"
  | unexpected _ _ | valueAsCommand _ | unknownOperator _ => "P001"
  | missing _ _ | missingProcedureName | missingName _ | missingNameAfterThing _ => "P002"
  | reservedName _ | reservedKeyword _ => "P003"
  | nestedDefinition => "P004"
  | procedureAsValue _ => "P005"
  | malformedColour _ => "B001"
  | unknownColour _ => "B002"
  | malformedNumber _ => "B003"

def message : Cause → String
  | unexpectedCharacter c => "unexpected character `" ++ c.toString ++ "`"
  | emptyWord => "empty word after `\"`"
  | emptyVariable => "empty variable name after `:`"
  | unexpected wanted found => "expected " ++ wanted.text ++ ", found " ++ Lexeme.describeFound found
  | valueAsCommand name => "`" ++ name ++ "` produces a value, expected a command"
  | unknownOperator name => "unknown operator `" ++ name ++ "`"
  | missing wanted found => "expected " ++ wanted.describe ++ ", found " ++ Lexeme.describeFound found
  | missingProcedureName => "expected procedure name after `to`"
  | missingName found => "expected a quoted name, found " ++ Lexeme.describeFound found
  | missingNameAfterThing found =>
      "expected a quoted name after `thing`, found " ++ Lexeme.describeFound found
  | reservedName name => "`" ++ name ++ "` is reserved and cannot name a procedure"
  | reservedKeyword keyword => keyword.describe ++ " is reserved and cannot name a procedure"
  | nestedDefinition => "procedures can only be defined at top level"
  | procedureAsValue name => "procedure `" ++ name ++ "` does not output a value"
  | malformedColour word => "`" ++ word ++ "` is not a #rrggbb colour"
  | unknownColour word => "unknown colour name `" ++ word ++ "`"
  | malformedNumber text => "malformed number `" ++ text ++ "`"

end Cause
end BuildError

structure BuildError where
  pos : Position
  cause : BuildError.Cause
  deriving DecidableEq, Repr

namespace BuildError

/-- The line that reports an error: code, position and message. -/
def text (e : BuildError) : String :=
  "[" ++ e.cause.code ++ "] " ++ toString e.pos.line ++ ":" ++ toString e.pos.column ++ ": " ++ e.cause.message

end BuildError
end TurtleLogo
