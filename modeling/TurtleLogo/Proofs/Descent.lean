import TurtleLogo.Language.Grammar

/-!
# The grammar without a bound

The productions of the grammar are bounded by a depth, and when it is used up they fail as at any other error. Here the rules of
the grammar stand apart from the bound: `Production.rule` says how a production is read once it is known how those are read
that it calls. With `Production.descend` they call one another to some depth, beyond which there is no result, not even an
error. So where `descend` gives a result, the recursion that led to it has come to its end by itself.
-/

namespace TurtleLogo
namespace Grammar

open Surface

/-- A result apart from the tokens that it leaves. -/
def outcome {α : Type} : EStateM.Result BuildError (List Token) α → Except BuildError α × List Token
  | .ok a left => (.ok a, left)
  | .error e left => (.error e, left)

/-- A reader of tokens that need not come to a result. -/
abbrev Descent := ExceptT BuildError (StateT (List Token) Option)

namespace Descent

/-- A reader that ends by itself. -/
def of {α : Type} (p : Parser α) : Descent α :=
  fun tokens => some (outcome (p tokens))

section

variable {α : Type} (tokens rest : List Token)

@[simp] theorem get_bind_apply (f : List Token → Descent α) : (get >>= f : Descent α) tokens = f tokens tokens := rfl

@[simp] theorem set_bind_apply (f : PUnit → Descent α) : (set rest >>= f : Descent α) tokens = f ⟨⟩ rest := rfl

end

end Descent

/-! ## Productions -/

/-- The productions of the grammar with the types of what they read. -/
inductive Production : Type → Type where
  | chain (level : Level) : Production Expr
  | chainFrom (level : Level) (left : Expr) : Production Expr
  | operand (level : Level) : Production Expr
  | signed : Production Expr
  | power : Production Expr
  | primary : Production Expr
  | expressions (count : Nat) : Production (List Expr)
  | expressionsToParen : Production (List Expr)
  | expressionsAhead : Production (List Expr)
  | callArguments (name : String) : Production (List Expr)
  | wordArgument : Production Argument
  | pointArgument : Production Argument
  | conditionArgument : Production Argument
  | colourArgument : Production Argument
  | statement : Production Statement
  | statementsTo (closing : Lexeme) : Production (List Statement)
  | block : Production Argument
  | argument (form : ArgumentForm) : Production Argument
  | arguments (forms : List ArgumentForm) : Production (List Argument)
  | procedureName : Production String
  | params : Production (List String)
  | definition (pos : Position) : Production Statement
  | topStatement : Production Statement

namespace Production

variable {α : Type}

/-- An expression of any kind. -/
abbrev expression : Production Expr :=
  chain .comparison

/-- The production with a bound on its depth. -/
def parser (env : Env) : Production α → Nat → Parser α
  | chain level, depth => Grammar.chain env depth level
  | chainFrom level left, depth => Grammar.chainFrom env depth level left
  | operand level, depth => Grammar.operand env depth level
  | signed, depth => Grammar.signed env depth
  | power, depth => Grammar.power env depth
  | primary, depth => Grammar.primary env depth
  | expressions count, depth => Grammar.expressions env depth count
  | expressionsToParen, depth => Grammar.expressionsToParen env depth
  | expressionsAhead, depth => Grammar.expressionsAhead env depth
  | callArguments name, depth => Grammar.callArguments env depth name
  | wordArgument, _ => Grammar.wordArgument env
  | pointArgument, depth => Grammar.pointArgument env depth
  | conditionArgument, depth => Grammar.conditionArgument env depth
  | colourArgument, depth => Grammar.colourArgument env depth
  | statement, depth => Grammar.statement env depth
  | statementsTo closing, depth => Grammar.statementsTo env closing depth
  | block, depth => Grammar.block env depth
  | argument form, depth => Grammar.argument env depth form
  | arguments forms, depth => Grammar.arguments env depth forms
  | procedureName, _ => Grammar.procedureName env
  | params, _ => Grammar.params
  | definition pos, depth => Grammar.definition env depth pos
  | topStatement, depth => Grammar.topStatement env depth

/-- How a production is read, given how others are. -/
def rule (env : Env) (call : {β : Type} → Production β → Descent β) : Production α → Descent α
  | chain level => do
      let first ← call (operand level)
      call (chainFrom level first)
  | chainFrom level left => do
      let tokens ← get
      match (ahead tokens).bind level.operator? with
      | none => return left
      | some op =>
          set tokens.tail
          let right ← call (operand level)
          call (chainFrom level (.binary op left right left.pos))
  | operand .comparison => call (chain .additive)
  | operand .additive => call (chain .multiplicative)
  | operand .multiplicative => call signed
  | signed => do
      let tokens ← get
      if ahead tokens = some .minus ∨ ahead tokens = some .negate then
        set tokens.tail
        let inner ← call signed
        return .negate inner (env.here tokens)
      else call power
  | power => do
      let base ← call primary
      let tokens ← get
      if ahead tokens = some .caret then
        set tokens.tail
        let exponent ← call signed
        return .binary .pow base exponent base.pos
      else return base
  | primary => do
      let tokens ← get
      match tokens with
      | ⟨.number text, pos⟩ :: rest =>
          set rest
          return .number text pos
      | ⟨.var name, pos⟩ :: rest =>
          set rest
          return .var name pos
      | ⟨.thingKeyword, pos⟩ :: ⟨.word name, _⟩ :: rest =>
          set rest
          return .thing name.toLower pos
      | ⟨.thingKeyword, _⟩ :: rest =>
          set rest
          .of (reject env .missingNameAfterThing)
      | ⟨.openParen, pos⟩ :: rest =>
          match operatorAhead? rest with
          | some op =>
              set rest.tail
              let operands ← call expressionsToParen
              Descent.of (expect env .closeParen)
              return .apply op operands pos
          | none =>
              set rest
              let inner ← call expression
              Descent.of (expect env .closeParen)
              return .group inner pos
      | ⟨.ident name, pos⟩ :: rest =>
          match Operator.ofWord? name with
          | some op =>
              set rest
              let operands ← call (expressions op.bareCount)
              return .apply op operands pos
          | none =>
              if (env.paramCount? name).isSome then throw ⟨pos, .procedureAsValue name⟩
              else throw ⟨pos, .unknownOperator name⟩
      | _ => .of (fail env (.unexpected .expression))
  | expressions 0 => return []
  | expressions (count + 1) => do
      let first ← call expression
      let rest ← call (expressions count)
      return first :: rest
  | expressionsToParen => do
      let tokens ← get
      if ahead tokens = some .closeParen ∨ ahead tokens = none then return []
      else
        let first ← call expression
        let rest ← call expressionsToParen
        return first :: rest
  | expressionsAhead => do
      let tokens ← get
      if startsExpression tokens then
        let first ← call expression
        let rest ← call expressionsAhead
        return first :: rest
      else return []
  | callArguments name =>
      match env.paramCount? name with
      | some count => call (expressions count)
      | none => call expressionsAhead
  | wordArgument => .of (Grammar.wordArgument env)
  | pointArgument => do
      Descent.of (expect env .openBracket)
      let x ← call expression
      let y ← call expression
      Descent.of (expect env .closeBracket)
      return .point x y
  | conditionArgument => do
      let tokens ← get
      if ahead tokens = some .openBracket then
        set tokens.tail
        let condition ← call expression
        Descent.of (expect env .closeBracket)
        return .value condition
      else
        let condition ← call expression
        return .value condition
  | colourArgument => do
      let tokens ← get
      match tokens with
      | ⟨.word text, pos⟩ :: rest =>
          set rest
          return .colour (.word text pos)
      | ⟨.openBracket, _⟩ :: rest =>
          set rest
          let red ← call expression
          let green ← call expression
          let blue ← call expression
          Descent.of (expect env .closeBracket)
          return .colour (.rgb red green blue)
      | _ =>
          let index ← call expression
          return .colour (.index index)
  | statement => do
      let tokens ← get
      match tokens with
      | ⟨.toKeyword, pos⟩ :: _ => throw ⟨pos, .nestedDefinition⟩
      | ⟨.ident name, pos⟩ :: rest =>
          set rest
          match Builtin.ofWord? name with
          | some builtin =>
              let list ← call (arguments builtin.signature)
              return .command builtin list pos
          | none =>
              match Operator.ofWord? name with
              | some _ => throw ⟨pos, .valueAsCommand name⟩
              | none =>
                  let list ← call (callArguments name)
                  return .call name list pos
      | _ => .of (fail env (.unexpected .command))
  | statementsTo closing => do
      let tokens ← get
      if ahead tokens = some closing ∨ ahead tokens = none then return []
      else
        let first ← call statement
        let rest ← call (statementsTo closing)
        return first :: rest
  | block => do
      Descent.of (expect env .openBracket)
      let body ← call (statementsTo .closeBracket)
      Descent.of (expect env .closeBracket)
      return .block body
  | argument .value => do
      let e ← call expression
      return .value e
  | argument .condition => call conditionArgument
  | argument .block => call block
  | argument .point => call pointArgument
  | argument .colour => call colourArgument
  | argument .word => call wordArgument
  | arguments [] => return []
  | arguments (form :: forms) => do
      let first ← call (argument form)
      let rest ← call (arguments forms)
      return first :: rest
  | procedureName => .of (Grammar.procedureName env)
  | params => .of Grammar.params
  | definition pos => do
      let name ← call procedureName
      let names ← call params
      let body ← call (statementsTo .endKeyword)
      Descent.of (expect env .endKeyword)
      return .definition name names body pos
  | topStatement => do
      let tokens ← get
      match tokens with
      | ⟨.toKeyword, pos⟩ :: rest =>
          set rest
          call (definition pos)
      | _ => call statement

/-- The production with others called to some depth, and no result if they call one another beyond it. -/
def descend (env : Env) : Nat → {α : Type} → Production α → Descent α
  | 0, _, _ => fun _ => none
  | depth + 1, _, p => p.rule env (descend env depth)

end Production

/-! ## Whole texts -/

namespace Descent

/-- One round of reading a text: a statement, or an error after which reading resumes further on. A round that would leave
all tokens where they are skips one. -/
def round (env : Env) (depth : Nat) (tokens : List Token) : Option (Except BuildError Statement × List Token) := do
  let (result, left) ← Production.topStatement.descend env depth tokens
  let left :=
    match result with
    | .ok _ => left
    | .error _ => recover env left
  return (result, if left.length = tokens.length then tokens.tail else left)

/-- At most so many rounds, and no result if they leave tokens. -/
def statements (env : Env) (depth : Nat) : Nat → List Token → Option (List (Except BuildError Statement))
  | _, [] => some []
  | 0, _ :: _ => none
  | rounds + 1, first :: rest => do
      let (result, left) ← round env depth (first :: rest)
      let later ← statements env depth rounds left
      return result :: later

def parse (depth : Nat) (tokens : Tokens) : Option (Except (List BuildError) (List Statement)) := do
  let results ← statements (Env.ofTokens tokens) depth depth tokens.list
  match results.filterMap error? with
  | [] => return .ok (results.filterMap value?)
  | errors => return .error errors

def parseExpression (depth : Nat) (tokens : Tokens) : Option (Except (List BuildError) Expr) := do
  let env := Env.ofTokens tokens
  match ← Production.expression.descend env depth tokens.list with
  | (.ok e, []) => return .ok e
  | (.ok _, rest) => return .error [⟨env.here rest, .unexpected .endOfInput (ahead rest)⟩]
  | (.error error, _) => return .error [error]

end Descent
end Grammar
end TurtleLogo
