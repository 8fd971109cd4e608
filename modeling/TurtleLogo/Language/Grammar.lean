import TurtleLogo.Language.BuildError
import TurtleLogo.Language.Surface

/-!
# The grammar

A recursive descent from tokens to surface trees, one function for each production. Comparisons bind loosest,
then sums, products, minus signs and powers; all but powers group to the left. How many arguments a call takes is
known from the headers of the definitions, which are collected from the whole text beforehand.

Every production is bounded by a depth, which its calls to others diminish. `depthFor` gives more depth than the
tokens at hand can use: each production consumes a token before it can come back to itself.

An error ends the statement in which it arises. `statements` then skips to a token that can begin a statement and
goes on there, so that one pass reports the errors of many statements.
-/

namespace TurtleLogo
namespace Grammar

open Surface

/-- A reader of tokens. An error keeps the tokens that were left when it arose. -/
abbrev Parser := EStateM BuildError (List Token)

/-- What the productions know besides the tokens ahead. -/
structure Env where
  /-- The defined procedures with the number of their parameters; the first entry for a name counts. -/
  headers : List (String × Nat)
  /-- Where the text ends. -/
  finish : Position
  deriving Repr

def isVar : Token → Bool
  | ⟨.var _, _⟩ => true
  | _ => false

/-- The headers `to name :a :b` anywhere among the tokens, in order. -/
def headers : List Token → List (String × Nat)
  | [] => []
  | ⟨.toKeyword, _⟩ :: ⟨.ident name, _⟩ :: rest => (name, (rest.takeWhile isVar).length) :: headers rest
  | _ :: rest => headers rest

namespace Env

def ofTokens (tokens : Tokens) : Env :=
  { headers := Grammar.headers tokens.list, finish := tokens.finish }

/-- The position ahead. -/
def here (env : Env) : List Token → Position
  | [] => env.finish
  | token :: _ => token.pos

/-- The declared number of parameters of a procedure. -/
def paramCount? (env : Env) (name : String) : Option Nat :=
  env.headers.lookup name

end Env

/-! ## Tokens ahead -/

/-- The token ahead; `none` at the end of the text. -/
def ahead (tokens : List Token) : Option Lexeme :=
  tokens.head?.map Token.lexeme

/-- An error at the token ahead, which stays unread. -/
def fail {α : Type} (env : Env) (cause : Option Lexeme → BuildError.Cause) : Parser α :=
  fun tokens => .error ⟨env.here tokens, cause (ahead tokens)⟩ tokens

/-- An error at the token ahead, which is read. -/
def reject {α : Type} (env : Env) (cause : Option Lexeme → BuildError.Cause) : Parser α :=
  fun tokens => .error ⟨env.here tokens, cause (ahead tokens)⟩ tokens.tail

/-- Reads one certain token. -/
def expect (env : Env) (wanted : Lexeme) : Parser Unit :=
  fun tokens =>
    if ahead tokens = some wanted then .ok () tokens.tail
    else fail env (.missing wanted) tokens

/-- The operator whose word stands ahead. -/
def operatorAhead? (tokens : List Token) : Option Operator :=
  match ahead tokens with
  | some (.ident name) => Operator.ofWord? name
  | _ => none

/-- Whether the token ahead can begin an expression. -/
def startsExpression (tokens : List Token) : Bool :=
  match ahead tokens with
  | some (.number _) | some (.var _) | some .thingKeyword | some .minus | some .negate
  | some .openParen => true
  | some (.ident name) => (Operator.ofWord? name).isSome
  | _ => false

/-! ## Expressions -/

/-- The three ranks of operators that group to the left, loosest first. -/
inductive Level where
  | comparison
  | additive
  | multiplicative
  deriving DecidableEq, Repr

namespace Level

/-- The operator of a rank that a sign stands for. -/
def operator? : Level → Lexeme → Option BinaryOp
  | comparison, .less => some .less
  | comparison, .lessEqual => some .lessEqual
  | comparison, .greater => some .greater
  | comparison, .greaterEqual => some .greaterEqual
  | comparison, .equal => some .equal
  | comparison, .notEqual => some .notEqual
  | additive, .plus => some .add
  | additive, .minus => some .sub
  | multiplicative, .star => some .mul
  | multiplicative, .slash => some .div
  | multiplicative, .percent => some .rem
  | _, _ => none

end Level

mutual

/-- Operands joined by operators of one rank. -/
def chain (env : Env) : Nat → Level → Parser Expr
  | 0, _ => fail env (.unexpected .expression)
  | depth + 1, level => do
      let first ← operand env depth level
      chainFrom env depth level first

/-- The rest of a chain whose first part has been read. -/
def chainFrom (env : Env) : Nat → Level → Expr → Parser Expr
  | 0, _, _ => fail env (.unexpected .expression)
  | depth + 1, level, left => fun tokens =>
      match (ahead tokens).bind level.operator? with
      | none => .ok left tokens
      | some op =>
          (do
            let right ← operand env depth level
            chainFrom env depth level (.binary op left right left.pos) : Parser Expr) tokens.tail

/-- One operand of a chain: a chain of the next rank, and in the end a signed power. -/
def operand (env : Env) : Nat → Level → Parser Expr
  | 0, _ => fail env (.unexpected .expression)
  | depth + 1, .comparison => chain env depth .additive
  | depth + 1, .additive => chain env depth .multiplicative
  | depth + 1, .multiplicative => signed env depth

/-- A power with any number of minus signs before it. -/
def signed (env : Env) : Nat → Parser Expr
  | 0 => fail env (.unexpected .expression)
  | depth + 1 => fun tokens =>
      if ahead tokens = some .minus ∨ ahead tokens = some .negate then
        (do
          let inner ← signed env depth
          return .negate inner (env.here tokens) : Parser Expr) tokens.tail
      else power env depth tokens

/-- A primary expression, perhaps raised to a signed power. -/
def power (env : Env) : Nat → Parser Expr
  | 0 => fail env (.unexpected .expression)
  | depth + 1 => do
      let base ← primary env depth
      fun tokens =>
        if ahead tokens = some .caret then
          (do
            let exponent ← signed env depth
            return .binary .pow base exponent base.pos : Parser Expr) tokens.tail
        else .ok base tokens

/-- A literal, a variable, something in parentheses, or an operator word with its operands. -/
def primary (env : Env) : Nat → Parser Expr
  | 0 => fail env (.unexpected .expression)
  | depth + 1 => fun tokens =>
      match tokens with
      | ⟨.number text, pos⟩ :: rest => .ok (.number text pos) rest
      | ⟨.var name, pos⟩ :: rest => .ok (.var name pos) rest
      | ⟨.thingKeyword, pos⟩ :: ⟨.word name, _⟩ :: rest => .ok (.thing name.toLower pos) rest
      | ⟨.thingKeyword, _⟩ :: rest => reject env .missingNameAfterThing rest
      | ⟨.openParen, pos⟩ :: rest =>
          match operatorAhead? rest with
          | some op =>
              (do
                let operands ← expressionsToParen env depth
                expect env .closeParen
                return .apply op operands pos : Parser Expr) rest.tail
          | none =>
              (do
                let inner ← chain env depth .comparison
                expect env .closeParen
                return .group inner pos : Parser Expr) rest
      | ⟨.ident name, pos⟩ :: rest =>
          match Operator.ofWord? name with
          | some op =>
              (do
                let operands ← expressions env depth op.bareCount
                return .apply op operands pos : Parser Expr) rest
          | none =>
              if (env.paramCount? name).isSome then .error ⟨pos, .procedureAsValue name⟩ tokens
              else .error ⟨pos, .unknownOperator name⟩ tokens
      | _ => fail env (.unexpected .expression) tokens

/-- A fixed number of expressions. -/
def expressions (env : Env) : Nat → Nat → Parser (List Expr)
  | 0, _ => fail env (.unexpected .expression)
  | _ + 1, 0 => pure []
  | depth + 1, count + 1 => do
      let first ← chain env depth .comparison
      let rest ← expressions env depth count
      return first :: rest

/-- All expressions up to a closing parenthesis or the end of the text. -/
def expressionsToParen (env : Env) : Nat → Parser (List Expr)
  | 0 => fail env (.unexpected .expression)
  | depth + 1 => fun tokens =>
      if ahead tokens = some .closeParen ∨ ahead tokens = none then .ok [] tokens
      else
        (do
          let first ← chain env depth .comparison
          let rest ← expressionsToParen env depth
          return first :: rest : Parser (List Expr)) tokens

end

/-- An expression. -/
def expression (env : Env) (depth : Nat) : Parser Expr :=
  chain env depth .comparison

/-- Expressions for as long as the token ahead can begin one. -/
def expressionsAhead (env : Env) : Nat → Parser (List Expr)
  | 0 => fail env (.unexpected .expression)
  | depth + 1 => fun tokens =>
      if startsExpression tokens then
        (do
          let first ← expression env depth
          let rest ← expressionsAhead env depth
          return first :: rest : Parser (List Expr)) tokens
      else .ok [] tokens

/-! ## Statements -/

/-- The arguments of a call: as many as the procedure declares; all that follow if it is not defined. -/
def callArguments (env : Env) (depth : Nat) (name : String) : Parser (List Expr) :=
  match env.paramCount? name with
  | some count => expressions env depth count
  | none => expressionsAhead env depth

/-- A quoted word. -/
def wordArgument (env : Env) : Parser Argument :=
  fun tokens =>
    match tokens with
    | ⟨.word text, pos⟩ :: rest => .ok (.word text pos) rest
    | _ => reject env .missingName tokens

/-- Two expressions in brackets. -/
def pointArgument (env : Env) (depth : Nat) : Parser Argument := do
  expect env .openBracket
  let x ← expression env depth
  let y ← expression env depth
  expect env .closeBracket
  return .point x y

/-- An expression, bare or in brackets. -/
def conditionArgument (env : Env) (depth : Nat) : Parser Argument :=
  fun tokens =>
    if ahead tokens = some .openBracket then
      (do
        let condition ← expression env depth
        expect env .closeBracket
        return .value condition : Parser Argument) tokens.tail
    else
      (do
        let condition ← expression env depth
        return .value condition : Parser Argument) tokens

/-- A quoted colour, three expressions in brackets, or a palette index. -/
def colourArgument (env : Env) (depth : Nat) : Parser Argument :=
  fun tokens =>
    match tokens with
    | ⟨.word text, pos⟩ :: rest => .ok (.colour (.word text pos)) rest
    | ⟨.openBracket, _⟩ :: rest =>
        (do
          let red ← expression env depth
          let green ← expression env depth
          let blue ← expression env depth
          expect env .closeBracket
          return .colour (.rgb red green blue) : Parser Argument) rest
    | _ =>
        (do
          let index ← expression env depth
          return .colour (.index index) : Parser Argument) tokens

mutual

/-- A command or a call. -/
def statement (env : Env) : Nat → Parser Statement
  | 0 => fail env (.unexpected .command)
  | depth + 1 => fun tokens =>
      match tokens with
      | ⟨.toKeyword, pos⟩ :: _ => .error ⟨pos, .nestedDefinition⟩ tokens
      | ⟨.ident name, pos⟩ :: rest =>
          match Builtin.ofWord? name with
          | some builtin =>
              (do
                let list ← arguments env depth builtin.signature
                return .command builtin list pos : Parser Statement) rest
          | none =>
              match Operator.ofWord? name with
              | some _ => .error ⟨pos, .valueAsCommand name⟩ rest
              | none =>
                  (do
                    let list ← callArguments env depth name
                    return .call name list pos : Parser Statement) rest
      | _ => fail env (.unexpected .command) tokens

/-- Statements up to a closing token or the end of the text. -/
def statementsTo (env : Env) (closing : Lexeme) : Nat → Parser (List Statement)
  | 0 => fail env (.unexpected .command)
  | depth + 1 => fun tokens =>
      if ahead tokens = some closing ∨ ahead tokens = none then .ok [] tokens
      else
        (do
          let first ← statement env depth
          let rest ← statementsTo env closing depth
          return first :: rest : Parser (List Statement)) tokens

/-- Statements in brackets. -/
def block (env : Env) : Nat → Parser Argument
  | 0 => fail env (.unexpected .command)
  | depth + 1 => do
      expect env .openBracket
      let body ← statementsTo env .closeBracket depth
      expect env .closeBracket
      return .block body

/-- One argument of a command. -/
def argument (env : Env) : Nat → ArgumentForm → Parser Argument
  | 0, _ => fail env (.unexpected .expression)
  | depth + 1, .value => do
      let e ← expression env depth
      return .value e
  | depth + 1, .condition => conditionArgument env depth
  | depth + 1, .block => block env depth
  | depth + 1, .point => pointArgument env depth
  | depth + 1, .colour => colourArgument env depth
  | _ + 1, .word => wordArgument env

/-- The arguments of a command. -/
def arguments (env : Env) : Nat → List ArgumentForm → Parser (List Argument)
  | 0, _ => fail env (.unexpected .expression)
  | _ + 1, [] => pure []
  | depth + 1, form :: forms => do
      let first ← argument env depth form
      let rest ← arguments env depth forms
      return first :: rest

end

/-- Whether a word is taken by a command or an operator. -/
def isReserved (name : String) : Bool :=
  (Builtin.ofWord? name).isSome || (Operator.ofWord? name).isSome

/-- The name of a procedure after `to`. The token in its place is read even if it is no name. -/
def procedureName (env : Env) : Parser String :=
  fun tokens =>
    match ahead tokens with
    | some (.ident name) =>
        if isReserved name then reject env (fun _ => .reservedName name) tokens else .ok name tokens.tail
    | some lexeme =>
        if lexeme.isKeyword then reject env (fun _ => .reservedKeyword lexeme) tokens
        else reject env (fun _ => .missingProcedureName) tokens
    | none => reject env (fun _ => .missingProcedureName) tokens

/-- The variables ahead. -/
def params : Parser (List String) :=
  fun tokens =>
    .ok ((tokens.takeWhile isVar).filterMap fun token => token.lexeme.text?) (tokens.dropWhile isVar)

/-- A definition from its name on. -/
def definition (env : Env) (depth : Nat) (pos : Position) : Parser Statement := do
  let name ← procedureName env
  let names ← params
  let body ← statementsTo env .endKeyword depth
  expect env .endKeyword
  return .definition name names body pos

/-- A definition, a command or a call. -/
def topStatement (env : Env) (depth : Nat) : Parser Statement :=
  fun tokens =>
    match tokens with
    | ⟨.toKeyword, pos⟩ :: rest => definition env depth pos rest
    | _ => statement env depth tokens

/-! ## Whole texts -/

/-- A depth that the productions cannot use up on these tokens. -/
def depthFor (tokens : List Token) : Nat :=
  16 * (tokens.length + 1)

/-- Whether a statement is likely to begin with this token. -/
def resumes (env : Env) (token : Token) : Bool :=
  match token.lexeme with
  | .toKeyword => true
  | .ident name => (Builtin.ofWord? name).isSome || (env.paramCount? name).isSome
  | _ => false

/-- The tokens from the next one at which a statement is likely to begin. -/
def recover (env : Env) (tokens : List Token) : List Token :=
  tokens.dropWhile fun token => !resumes env token

/-- The statements of a text, with an error in the place of each that could not be read. -/
def statements (env : Env) (tokens : List Token) : List (Except BuildError Statement) :=
  match tokens with
  | [] => []
  | first :: rest =>
      let (result, left) : Except BuildError Statement × List Token :=
        match topStatement env (depthFor (first :: rest)) (first :: rest) with
        | .ok statement left => (.ok statement, left)
        | .error error left => (.error error, recover env left)
      if left.length ≤ rest.length then result :: statements env left
      else result :: statements env rest
termination_by tokens.length

/-- The error of a result. -/
def error? {α : Type} : Except BuildError α → Option BuildError
  | .ok _ => none
  | .error error => some error

/-- The value of a result. -/
def value? {α : Type} : Except BuildError α → Option α
  | .ok value => some value
  | .error _ => none

/-- The statements of a text, or all errors that the grammar finds in it. -/
def parse (tokens : Tokens) : Except (List BuildError) (List Statement) :=
  let results := statements (Env.ofTokens tokens) tokens.list
  match results.filterMap error? with
  | [] => .ok (results.filterMap value?)
  | errors => .error errors

/-- The one expression that makes up a text. -/
def parseExpression (tokens : Tokens) : Except (List BuildError) Expr :=
  let env := Env.ofTokens tokens
  match expression env (depthFor tokens.list) tokens.list with
  | .ok e [] => .ok e
  | .ok _ rest => .error [⟨env.here rest, .unexpected .endOfInput (ahead rest)⟩]
  | .error error _ => .error [error]

end Grammar
end TurtleLogo
